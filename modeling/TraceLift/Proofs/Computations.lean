/-
# Computations that can fail, and lists

What a computation in steps comes to is known from what its steps come to.

* **Results** (`bind_eq_ok_iff`, `mem_of_mapM`).  There is a result exactly if every step has one,
  and what comes out of a computation over a list comes from one of its items.
* **Failures** (`bind_eq_error`, `mapM_eq_error`).  A computation fails as one of its steps does.
* **Success** (`Succeeds`).  Whether there is a result can be asked without asking for which.
* **Rounds** (`Ends`).  A search is given a number of rounds.  A computation ends if none of its
  searches lacks one.

Two lists whose items correspond are compared item by item (`forall₂_mapM`).
-/
import Mathlib.Data.List.Forall2
import TraceLift.Fault

namespace TraceLift

/-! ## 1. One step after the other -/

section Steps

variable {ε α β : Type}

/-- A computation in two steps succeeds exactly if both steps do. -/
theorem bind_eq_ok_iff {x : Except ε α} {f : α → Except ε β} {b : β} :
    (x >>= f) = .ok b ↔ ∃ a, x = .ok a ∧ f a = .ok b := by
  cases x with
  | error e => simp [bind, Except.bind]
  | ok a => simp [bind, Except.bind]

theorem map_eq_ok_iff {x : Except ε α} {f : α → β} {b : β} :
    x.map f = .ok b ↔ ∃ a, x = .ok a ∧ f a = b := by
  cases x <;> simp [Except.map]

theorem bind_eq_error {x : Except ε α} {f : α → Except ε β} {e : ε}
    (h : (x >>= f) = .error e) : x = .error e ∨ ∃ a, x = .ok a ∧ f a = .error e := by
  cases x with
  | error e' => exact .inl (congrArg Except.error (Except.error.inj h))
  | ok a => exact .inr ⟨a, rfl, h⟩

end Steps

/-! ## 2. Over a list -/

section OverList

variable {ε α β : Type}

/-- What comes out of a computation over a list comes from an item of the list. -/
theorem mem_of_mapM {f : α → Except ε β} : ∀ {l : List α} {l' : List β},
    l.mapM f = .ok l' → ∀ b ∈ l', ∃ a ∈ l, f a = .ok b
  | [], _, h, b, hb => by
    cases h
    exact absurd hb (List.not_mem_nil)
  | a :: l, _, h, b, hb => by
    rw [List.mapM_cons] at h
    obtain ⟨b', hb', h⟩ := bind_eq_ok_iff.mp h
    obtain ⟨rest, hrest, h⟩ := bind_eq_ok_iff.mp h
    cases h
    rcases List.mem_cons.mp hb with rfl | hb
    · exact ⟨a, List.mem_cons_self, hb'⟩
    · obtain ⟨a', ha', hfa⟩ := mem_of_mapM hrest b hb
      exact ⟨a', List.mem_cons_of_mem _ ha', hfa⟩

theorem mem_of_filterMapM {f : α → Except ε (Option β)} :
    ∀ {l : List α} {l' : List β}, l.filterMapM f = .ok l' → ∀ b ∈ l', ∃ a ∈ l, f a = .ok (some b)
  | [], _, h, b, hb => by
    cases h
    exact absurd hb (List.not_mem_nil)
  | a :: l, _, h, b, hb => by
    rw [List.filterMapM_cons] at h
    obtain ⟨o, ho, h⟩ := bind_eq_ok_iff.mp h
    cases o with
    | none =>
      obtain ⟨a', ha', hfa⟩ := mem_of_filterMapM h b hb
      exact ⟨a', List.mem_cons_of_mem _ ha', hfa⟩
    | some b' =>
      obtain ⟨rest, hrest, h⟩ := bind_eq_ok_iff.mp h
      cases h
      rcases List.mem_cons.mp hb with rfl | hb
      · exact ⟨a, List.mem_cons_self, ho⟩
      · obtain ⟨a', ha', hfa⟩ := mem_of_filterMapM hrest b hb
        exact ⟨a', List.mem_cons_of_mem _ ha', hfa⟩

theorem mapM_eq_ok {f : α → Except ε β} {l : List α} {l' : List β}
    (h : l.map f = l'.map .ok) : l.mapM f = .ok l' :=
  calc l.mapM f = (l.map f).mapM id := by rw [List.mapM_map]; rfl
    _ = (l'.map Except.ok).mapM id := by rw [h]
    _ = .ok l' := by
      rw [List.mapM_map]
      exact (List.mapM_pure ..).trans (by simp; rfl)

/-- A computation over a list fails as it does at one of the items. -/
theorem mapM_eq_error {f : α → Except ε β} {l : List α} {e : ε}
    (h : l.mapM f = .error e) : ∃ a ∈ l, f a = .error e := by
  induction l with
  | nil => exact absurd h (by simp [pure, Except.pure])
  | cons a l ih =>
    rw [List.mapM_cons] at h
    rcases bind_eq_error h with ha | ⟨b, -, h⟩
    · exact ⟨a, List.mem_cons_self, ha⟩
    · rcases bind_eq_error h with hl | ⟨bs, -, h⟩
      · obtain ⟨a', ha', herror⟩ := ih hl
        exact ⟨a', List.mem_cons_of_mem _ ha', herror⟩
      · exact absurd h (by simp [pure, Except.pure])

theorem mapM_of_map_eq {f f' : α → Except ε β} {l l' : List α}
    (h : l'.map f' = l.map f) : l'.mapM f' = l.mapM f := by
  have hid : ∀ (f : α → Except ε β) (l : List α), l.mapM f = (l.map f).mapM id := by
    intro f l
    rw [List.mapM_map]
    rfl
  rw [hid, h, ← hid]

/-- A test that succeeds on all members of a list filters it. -/
theorem filterM_eq_ok {p : α → Except ε Bool} {q : α → Bool} {l : List α}
    (h : ∀ a ∈ l, p a = .ok (q a)) : l.filterM p = .ok (l.filter q) := by
  have haux : ∀ (l acc : List α), (∀ a ∈ l, p a = .ok (q a)) →
      l.filterAuxM p acc = .ok ((l.filter q).reverse ++ acc) := by
    intro l
    induction l with
    | nil => exact fun _ _ => rfl
    | cons a l ih =>
      intro acc hall
      obtain ⟨ha, hl⟩ := List.forall_mem_cons.mp hall
      have hrest := ih (cond (q a) (a :: acc) acc) hl
      simp only [List.filterAuxM, ha, bind, Except.bind, hrest]
      cases hq : q a <;> simp [hq]
  rw [List.filterM, haux l [] h, List.append_nil]
  exact congrArg Except.ok (List.reverse_reverse _)

end OverList

/-! ## 3. Computations that succeed -/

section Succeeds

variable {α β : Type}

/-- A computation has a result. -/
def Succeeds (r : Except Fault α) : Prop := ∃ a, r = .ok a

theorem Succeeds.ok (a : α) : Succeeds (.ok a : Except Fault α) := ⟨a, rfl⟩

theorem succeeds_bind_iff {x : Except Fault α} {f : α → Except Fault β} :
    Succeeds (x >>= f) ↔ ∃ a, x = .ok a ∧ Succeeds (f a) := by
  simp only [Succeeds, bind_eq_ok_iff]
  exact ⟨fun ⟨b, a, ha, hb⟩ => ⟨a, ha, b, hb⟩, fun ⟨a, ha, b, hb⟩ => ⟨b, a, ha, hb⟩⟩

/-- A computation over a list succeeds if it does so on every member. -/
theorem succeeds_mapM_iff {f : α → Except Fault β} {l : List α} :
    Succeeds (l.mapM f) ↔ ∀ a ∈ l, Succeeds (f a) := by
  induction l with
  | nil => exact ⟨fun _ a ha => absurd ha List.not_mem_nil, fun _ => .ok []⟩
  | cons a l ih =>
    rw [List.mapM_cons, succeeds_bind_iff, List.forall_mem_cons, ← ih]
    constructor
    · rintro ⟨b, hb, hrest⟩
      obtain ⟨bs, hbs, -⟩ := succeeds_bind_iff.mp hrest
      exact ⟨⟨b, hb⟩, bs, hbs⟩
    · rintro ⟨⟨b, hb⟩, bs, hbs⟩
      exact ⟨b, hb, succeeds_bind_iff.mpr ⟨bs, hbs, .ok _⟩⟩

/-- If what comes after cannot fail, a computation succeeds and fails as its first part does. -/
theorem succeeds_bind_iff_of_succeeds {x : Except Fault α} {f : α → Except Fault β}
    (hf : ∀ a, Succeeds (f a)) : Succeeds (x >>= f) ↔ Succeeds x := by
  rw [succeeds_bind_iff]
  exact ⟨fun ⟨a, ha, _⟩ => ⟨a, ha⟩, fun ⟨a, ha⟩ => ⟨a, ha, hf a⟩⟩

theorem eq_error_of_bind {x : Except Fault α} {f : α → Except Fault β}
    (hf : ∀ a, Succeeds (f a)) {e : Fault} (h : (x >>= f) = .error e) : x = .error e := by
  rcases bind_eq_error h with hx | ⟨a, -, ha⟩
  · exact hx
  · obtain ⟨b, hb⟩ := hf a
    exact absurd (hb.symm.trans ha) (by simp)

/-- A test that succeeds on every member of a list filters it. -/
theorem filterM_of_succeeds {p : α → Except Fault Bool} {l : List α}
    (h : ∀ a ∈ l, Succeeds (p a)) :
    ∃ kept, l.filterM p = .ok kept ∧ ∀ a ∈ kept, a ∈ l ∧ p a = .ok true := by
  have htest : ∀ a ∈ l, p a = .ok (decide (p a = .ok true)) := by
    intro a ha
    obtain ⟨b, hb⟩ := h a ha
    cases b <;> simp [hb]
  refine ⟨_, filterM_eq_ok htest, fun a ha => ?_⟩
  obtain ⟨hmem, htrue⟩ := List.mem_filter.mp ha
  exact ⟨hmem, of_decide_eq_true htrue⟩

end Succeeds

/-! ## 4. Computations that end -/

/-- A computation came to a result, or failed for a reason of its own and not for want of rounds. -/
def Ends {α : Type} (r : Except Fault α) : Prop := r ≠ .error .unfinished

namespace Ends

variable {α β : Type}

theorem ok (a : α) : Ends (.ok a : Except Fault α) := by simp [Ends]

theorem error {e : Fault} (he : e ≠ .unfinished) : Ends (.error e : Except Fault α) := by
  intro h
  exact he (Except.error.inj h)

theorem bind {x : Except Fault α} {f : α → Except Fault β} (hx : Ends x) (hf : ∀ a, Ends (f a)) :
    Ends (x >>= f) := by
  cases x with
  | error e => exact error fun he => hx (congrArg Except.error he)
  | ok a => exact hf a

/-- Two computations that go on alike wherever the first one ends. -/
theorem bind_congr {x : Except Fault α} {f f' : α → Except Fault β} (h : Ends (x >>= f))
    (hf : ∀ a, Ends (f a) → f' a = f a) : (x >>= f') = x >>= f := by
  cases x with
  | error e => rfl
  | ok a => exact hf a h

theorem mapM {f : α → Except Fault β} (hf : ∀ a, Ends (f a)) (l : List α) : Ends (l.mapM f) := by
  induction l with
  | nil => exact ok []
  | cons a l ih =>
    rw [List.mapM_cons]
    exact (hf a).bind fun _ => ih.bind fun _ => ok _

theorem filterM {p : α → Except Fault Bool} (hp : ∀ a, Ends (p a)) (l : List α) :
    Ends (l.filterM p) := by
  have haux : ∀ acc, Ends (l.filterAuxM p acc) := by
    induction l with
    | nil => exact ok
    | cons a l ih => exact fun acc => (hp a).bind fun b => ih (cond b (a :: acc) acc)
  exact (haux []).bind fun _ => ok _

theorem filterMapM {f : α → Except Fault (Option β)} (hf : ∀ a, Ends (f a)) (l : List α) :
    Ends (l.filterMapM f) := by
  induction l with
  | nil => exact ok []
  | cons a l ih =>
    rw [List.filterMapM_cons]
    refine (hf a).bind fun o => ?_
    cases o with
    | none => exact ih
    | some b => exact ih.bind fun _ => ok _

end Ends

/-! ## 5. Lists -/

section Lists

variable {α β : Type}

theorem filterMap_getElem?_range : ∀ l : List α,
    (List.range l.length).filterMap (l[·]?) = l
  | [] => rfl
  | a :: l => by
    rw [List.length_cons, List.range_succ_eq_map, List.filterMap_cons, List.filterMap_map]
    exact congrArg (a :: ·) (filterMap_getElem?_range l)

theorem nodup_eraseDups [DecidableEq α] : ∀ l : List α, l.eraseDups.Nodup
  | [] => by simp
  | a :: l => by
    rw [List.eraseDups_cons, List.nodup_cons]
    refine ⟨fun hmem => ?_, nodup_eraseDups _⟩
    have hne := (List.mem_filter.mp (List.mem_eraseDups.mp hmem)).2
    simp at hne
termination_by l => l.length
decreasing_by
  exact Nat.lt_succ_of_le (List.length_filter_le _ _)

/-- Of several items with different names, one has the name of a given one. -/
theorem filter_eq_of_nodup [DecidableEq β] {f : α → β} {a : α} : ∀ {l : List α},
    (l.map f).Nodup → a ∈ l → (l.filter fun x => f x = f a) = [a]
  | [], _, h => absurd h (List.not_mem_nil)
  | x :: l, hnodup, h => by
    rw [List.map_cons, List.nodup_cons] at hnodup
    rcases List.mem_cons.mp h with rfl | hmem
    · have hnone : (l.filter fun x => f x = f a) = [] := by
        rw [List.filter_eq_nil_iff]
        intro y hy heq
        exact hnodup.1 (of_decide_eq_true heq ▸ List.mem_map_of_mem hy)
      rw [List.filter_cons_of_pos (by simp), hnone]
    · have hne : f x ≠ f a := fun heq => hnodup.1 (heq ▸ List.mem_map_of_mem hmem)
      rw [List.filter_cons_of_neg (by simpa using hne)]
      exact filter_eq_of_nodup hnodup.2 hmem

theorem getElem?_of_isPrefix {l l' : List α} (h : l <+: l') {k : Nat} {a : α}
    (ha : l[k]? = some a) : l'[k]? = some a := by
  obtain ⟨rest, rfl⟩ := h
  rw [List.getElem?_append_left (List.getElem?_eq_some_iff.mp ha).1, ha]

end Lists

/-! ## 6. Lists side by side -/

section Forall₂

variable {α β γ ε : Type} {R : α → β → Prop} {l : List α} {l' : List β}

theorem forall₂_mapM {f : α → Except ε γ} {f' : β → Except ε γ} (h : List.Forall₂ R l l')
    (hf : ∀ a b, R a b → f' b = f a) : l'.mapM f' = l.mapM f := by
  induction h with
  | nil => rfl
  | cons hab _ ih => rw [List.mapM_cons, List.mapM_cons, hf _ _ hab, ih]

theorem forall₂_map_eq {f : α → γ} {f' : β → γ} (h : List.Forall₂ R l l')
    (hf : ∀ a b, R a b → f' b = f a) : l'.map f' = l.map f := by
  induction h with
  | nil => rfl
  | cons hab _ ih => rw [List.map_cons, List.map_cons, hf _ _ hab, ih]

theorem forall₂_flatMap_eq {f : α → List γ} {f' : β → List γ} (h : List.Forall₂ R l l')
    (hf : ∀ a b, R a b → f' b = f a) : l'.flatMap f' = l.flatMap f := by
  rw [List.flatMap_def, List.flatMap_def, forall₂_map_eq h hf]

theorem forall_right {P : β → Prop} (h : List.Forall₂ R l l') (hP : ∀ a b, R a b → P b) :
    ∀ b ∈ l', P b := by
  induction h with
  | nil => exact fun b hb => absurd hb (by simp)
  | cons hab _ ih => exact List.forall_mem_cons.mpr ⟨hP _ _ hab, ih⟩

theorem rel_head? (h : List.Forall₂ R l l') : Option.Rel R l.head? l'.head? := by
  cases h with
  | nil => exact .none
  | cons hab _ => exact .some hab

theorem rel_getLast? (h : List.Forall₂ R l l') : Option.Rel R l.getLast? l'.getLast? := by
  rw [List.getLast?_eq_head?_reverse, List.getLast?_eq_head?_reverse]
  exact rel_head? (List.rel_reverse h)

theorem rel_dropLast (h : List.Forall₂ R l l') : List.Forall₂ R l.dropLast l'.dropLast := by
  rw [List.dropLast_eq_take, List.dropLast_eq_take, h.length_eq]
  exact List.forall₂_take _ h

theorem exists_getElem?_of_forall₂ (h : List.Forall₂ R l l') {k : Nat} {a : α}
    (ha : l[k]? = some a) : ∃ b, l'[k]? = some b ∧ R a b := by
  obtain ⟨hk, rfl⟩ := List.getElem?_eq_some_iff.mp ha
  have hk' : k < l'.length := h.length_eq ▸ hk
  exact ⟨l'[k], List.getElem?_eq_getElem hk', h.get hk hk'⟩

theorem exists_of_forall₂ (h : List.Forall₂ R l l') : ∀ a ∈ l, ∃ b ∈ l', R a b := by
  intro a ha
  obtain ⟨k, hk⟩ := List.mem_iff_getElem?.mp ha
  obtain ⟨b, hb, hR⟩ := exists_getElem?_of_forall₂ h hk
  exact ⟨b, List.mem_of_getElem? hb, hR⟩

theorem exists_concat_of_forall₂ {b : β} (h : List.Forall₂ R l (l' ++ [b])) :
    ∃ front a, l = front ++ [a] ∧ List.Forall₂ R front l' ∧ R a b := by
  obtain ⟨a, _, hab, hnil, hdrop⟩ :=
    List.forall₂_cons_right_iff.mp (List.forall₂_drop_append _ _ _ h)
  rw [List.forall₂_nil_right_iff.mp hnil] at hdrop
  refine ⟨l.take l'.length, a, ?_, List.forall₂_take_append _ _ _ h, hab⟩
  rw [← hdrop, List.take_append_drop]

end Forall₂

end TraceLift
