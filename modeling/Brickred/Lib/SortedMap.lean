import Mathlib.Order.RelClasses

/-!
# A map as a sorted list of entries

Keys are compared by a strict weak order, as by the comparator of a `std::map`:
two keys of which neither is less than the other are one key. Assigning to a key
that is there changes the value and leaves the key as it was first written.
-/

structure SortedMap (α γ : Type) (lt : α → α → Prop) where
  entries : List (α × γ)
  sorted : entries.Pairwise fun a b => lt a.1 b.1

namespace SortedMap

variable {α γ : Type} {lt : α → α → Prop} [DecidableRel lt]

/-- Neither key is less than the other. -/
abbrev Equiv (lt : α → α → Prop) (k k' : α) : Prop := ¬ lt k k' ∧ ¬ lt k' k

def empty : SortedMap α γ lt := ⟨[], .nil⟩

omit [DecidableRel lt] in
@[simp] theorem entries_empty : (empty : SortedMap α γ lt).entries = [] := rfl

def find (m : SortedMap α γ lt) (k : α) : Option γ :=
  (m.entries.find? fun e => Equiv lt e.1 k).map Prod.snd

/-- An assignment to a key, on the entries. -/
def assign (lt : α → α → Prop) [DecidableRel lt] (k : α) (v : γ) : List (α × γ) → List (α × γ)
  | [] => [(k, v)]
  | e :: es =>
    if lt k e.1 then (k, v) :: e :: es
    else if lt e.1 k then e :: assign lt k v es
    else (e.1, v) :: es

theorem mem_assign {k : α} {v : γ} {e : α × γ} {es : List (α × γ)} (h : e ∈ assign lt k v es) :
    e.1 = k ∨ ∃ e' ∈ es, e.1 = e'.1 := by
  induction es with
  | nil =>
    cases List.mem_singleton.mp h
    exact .inl rfl
  | cons e' es ih =>
    unfold assign at h
    split at h
    · cases h with
      | head => exact .inl rfl
      | tail _ h => exact .inr ⟨e, h, rfl⟩
    · split at h
      · cases h with
        | head => exact .inr ⟨_, .head _, rfl⟩
        | tail _ h => exact (ih h).imp id fun ⟨e₁, hmem, he⟩ => ⟨e₁, .tail _ hmem, he⟩
      · cases h with
        | head => exact .inr ⟨_, .head _, rfl⟩
        | tail _ h => exact .inr ⟨e, .tail _ h, rfl⟩

variable [IsStrictWeakOrder α lt]

theorem assign_sorted {k : α} {v : γ} {es : List (α × γ)}
    (h : es.Pairwise fun a b => lt a.1 b.1) :
    (assign lt k v es).Pairwise fun a b => lt a.1 b.1 := by
  induction es with
  | nil => exact List.pairwise_singleton _ _
  | cons e es ih =>
    obtain ⟨hhead, htail⟩ := List.pairwise_cons.mp h
    unfold assign
    split
    · rename_i hlt
      refine List.pairwise_cons.mpr ⟨fun e' hmem => ?_, h⟩
      cases hmem with
      | head => exact hlt
      | tail _ hmem => exact trans_of lt hlt (hhead e' hmem)
    · split
      · rename_i hlt
        refine List.pairwise_cons.mpr ⟨fun e' hmem => ?_, ih htail⟩
        obtain heq | ⟨e'', hmem, heq⟩ := mem_assign hmem
        · rw [heq]
          exact hlt
        · rw [heq]
          exact hhead e'' hmem
      · exact List.pairwise_cons.mpr ⟨hhead, htail⟩

def insert (m : SortedMap α γ lt) (k : α) (v : γ) : SortedMap α γ lt :=
  ⟨assign lt k v m.entries, assign_sorted m.sorted⟩

omit [DecidableRel lt] [IsStrictWeakOrder α lt] in
/-- The entries with a property. -/
def filter (m : SortedMap α γ lt) (q : α × γ → Bool) : SortedMap α γ lt :=
  ⟨m.entries.filter q, m.sorted.sublist List.filter_sublist⟩

omit [IsStrictWeakOrder α lt] in
/-- Removal of a key. -/
def erase (m : SortedMap α γ lt) (k : α) : SortedMap α γ lt :=
  m.filter fun e => ¬ Equiv lt e.1 k

/-- Assignments one after another, in the order of a list. -/
def insertAll (m : SortedMap α γ lt) (es : List (α × γ)) : SortedMap α γ lt :=
  es.foldl (fun m e => m.insert e.1 e.2) m

variable {m : SortedMap α γ lt} {k k' : α} {v : γ}

omit [DecidableRel lt] in
theorem Equiv.trans {a b c : α} (h₁ : Equiv lt a b) (h₂ : Equiv lt b c) : Equiv lt a c :=
  IsStrictWeakOrder.incomp_trans a b c h₁ h₂

theorem find_assign (k k' : α) (v : γ) (es : List (α × γ)) :
    ((assign lt k v es).find? fun e => Equiv lt e.1 k').map Prod.snd =
      if Equiv lt k k' then some v else (es.find? fun e => Equiv lt e.1 k').map Prod.snd := by
  induction es with
  | nil =>
    unfold assign
    by_cases heq : Equiv lt k k' <;> simp [heq]
  | cons e es ih =>
    unfold assign
    split
    · by_cases heq : Equiv lt k k' <;> simp [heq]
    · rename_i hkey
      split
      · rename_i hlt
        by_cases heq : Equiv lt e.1 k'
        · have hne : ¬ Equiv lt k k' := fun h => (heq.trans ⟨h.2, h.1⟩).1 hlt
          simp [heq, hne]
        · rw [List.find?_cons_of_neg (by simpa using heq), ih]
          rw [List.find?_cons_of_neg (by simpa using heq)]
      · rename_i hkey'
        have hsame : Equiv lt e.1 k' ↔ Equiv lt k k' :=
          ⟨Equiv.trans ⟨hkey, hkey'⟩, Equiv.trans ⟨hkey', hkey⟩⟩
        by_cases heq : Equiv lt k k'
        · have heq' := hsame.mpr heq
          simp [heq, heq']
        · have heq' := mt hsame.mp heq
          rw [List.find?_cons_of_neg (by simpa using heq'), if_neg heq]
          rw [List.find?_cons_of_neg (by simpa using heq')]

omit [IsStrictWeakOrder α lt] in
theorem length_assign_le (k : α) (v : γ) (es : List (α × γ)) :
    (assign lt k v es).length ≤ es.length + 1 := by
  induction es with
  | nil => exact Nat.le_refl _
  | cons e es ih =>
    unfold assign
    split
    · exact Nat.le_refl _
    · split
      · exact Nat.succ_le_succ ih
      · exact Nat.le_succ _

theorem length_insert_le (m : SortedMap α γ lt) (k : α) (v : γ) :
    (m.insert k v).entries.length ≤ m.entries.length + 1 :=
  length_assign_le k v m.entries

omit [IsStrictWeakOrder α lt] in
theorem length_erase_le (m : SortedMap α γ lt) (k : α) :
    (m.erase k).entries.length ≤ m.entries.length :=
  List.length_filter_le _ _

theorem length_insertAll_le (m : SortedMap α γ lt) (es : List (α × γ)) :
    (m.insertAll es).entries.length ≤ m.entries.length + es.length := by
  induction es generalizing m with
  | nil => exact Nat.le_refl _
  | cons e es ih =>
    have hone := length_insert_le m e.1 e.2
    have hrest := ih (m.insert e.1 e.2)
    rw [List.length_cons]
    show ((m.insert e.1 e.2).insertAll es).entries.length ≤ _
    omega

theorem find_insert (m : SortedMap α γ lt) (k k' : α) (v : γ) :
    (m.insert k v).find k' = if Equiv lt k k' then some v else m.find k' :=
  find_assign k k' v m.entries

/-- A key greater than all others is appended. -/
theorem entries_insert_of_lt (h : ∀ e ∈ m.entries, lt e.1 k) :
    (m.insert k v).entries = m.entries ++ [(k, v)] := by
  show assign lt k v m.entries = _
  generalize m.entries = es at h
  induction es with
  | nil => rfl
  | cons e es ih =>
    have hlt := h e (.head _)
    unfold assign
    rw [if_neg (asymm_of lt hlt), if_pos hlt, ih fun e' he' => h e' (.tail _ he')]
    rfl

/-- Assigning entries that are in order appends them. -/
theorem entries_insertAll {es : List (α × γ)} (m : SortedMap α γ lt)
    (h : (m.entries ++ es).Pairwise fun a b => lt a.1 b.1) :
    (m.insertAll es).entries = m.entries ++ es := by
  induction es generalizing m with
  | nil => exact (List.append_nil _).symm
  | cons e es ih =>
    have hins : (m.insert e.1 e.2).entries = m.entries ++ [e] :=
      entries_insert_of_lt fun e' he' => (List.pairwise_append.mp h).2.2 e' he' e (.head _)
    have hrest := ih (m.insert e.1 e.2) (by rw [hins, List.append_assoc]; exact h)
    rw [hins, List.append_assoc] at hrest
    exact hrest

omit [DecidableRel lt] [IsStrictWeakOrder α lt] in
theorem ext_entries {m m' : SortedMap α γ lt} (h : m.entries = m'.entries) : m = m' := by
  cases m
  cases m'
  cases h
  rfl

/-- Assigning the entries of a map in its order gives the map back. -/
theorem insertAll_entries (m : SortedMap α γ lt) :
    (empty : SortedMap α γ lt).insertAll m.entries = m :=
  ext_entries (entries_insertAll empty m.sorted)

variable {m' : SortedMap α γ lt} {e : α × γ} {es : List (α × γ)}

/-! ## Entries -/

/-- No entry has the key. -/
def Absent (m : SortedMap α γ lt) (k : α) : Prop := ∀ e ∈ m.entries, ¬ Equiv lt e.1 k

/-- The entries with other keys stay. -/
theorem mem_insert_other (h : ¬ Equiv lt e.1 k) :
    e ∈ (m.insert k v).entries ↔ e ∈ m.entries := by
  show e ∈ assign lt k v m.entries ↔ _
  generalize m.entries = es
  induction es with
  | nil =>
    constructor
    · intro hmem
      cases List.mem_singleton.mp hmem
      exact absurd ⟨irrefl_of lt k, irrefl_of lt k⟩ h
    · nofun
  | cons e' es ih =>
    have hne : e ≠ (k, v) := by
      rintro rfl
      exact h ⟨irrefl_of lt k, irrefl_of lt k⟩
    unfold assign
    split
    · rw [List.mem_cons, or_iff_right hne]
    · split
      · rw [List.mem_cons, List.mem_cons, ih]
      · rename_i hkey hkey'
        have hne₁ : e ≠ (e'.1, v) := by
          rintro rfl
          exact h ⟨hkey', hkey⟩
        have hne₂ : e ≠ e' := by
          rintro rfl
          exact h ⟨hkey', hkey⟩
        rw [List.mem_cons, List.mem_cons, or_iff_right hne₁, or_iff_right hne₂]

/-- The entry of the key has its value, and the key as it was first written. -/
theorem mem_insert_equiv (h : Equiv lt e.1 k) (hmem : e ∈ (m.insert k v).entries) :
    e.2 = v ∧ (e.1 = k ∨ ∃ e' ∈ m.entries, e.1 = e'.1) := by
  refine ⟨?_, mem_assign hmem⟩
  have hsorted := m.sorted
  change e ∈ assign lt k v m.entries at hmem
  generalize m.entries = es at hmem hsorted
  induction es with
  | nil =>
    cases List.mem_singleton.mp hmem
    rfl
  | cons e' es ih =>
    obtain ⟨hhead, htail⟩ := List.pairwise_cons.mp hsorted
    unfold assign at hmem
    split at hmem
    · rename_i hlt
      cases hmem with
      | head => rfl
      | tail _ hmem =>
        have hle : lt k e.1 := by
          cases hmem with
          | head => exact hlt
          | tail _ hmem => exact trans_of lt hlt (hhead e hmem)
        exact absurd hle h.2
    · split at hmem
      · rename_i hlt
        cases hmem with
        | head => exact absurd hlt h.1
        | tail _ hmem => exact ih hmem htail
      · rename_i hkey hkey'
        cases hmem with
        | head => rfl
        | tail _ hmem => exact absurd (hhead e hmem) ((h.trans ⟨hkey, hkey'⟩).2)

theorem mem_insert_self (h : m.Absent k) : (k, v) ∈ (m.insert k v).entries := by
  show _ ∈ assign lt k v m.entries
  unfold Absent at h
  generalize m.entries = es at h
  induction es with
  | nil => exact List.mem_singleton.mpr rfl
  | cons e es ih =>
    unfold assign
    split
    · exact .head _
    · split
      · exact .tail _ (ih fun e' he' => h e' (.tail _ he'))
      · rename_i hkey hkey'
        exact absurd ⟨hkey', hkey⟩ (h e (.head _))

theorem mem_insert_absent (h : m.Absent k) :
    e ∈ (m.insert k v).entries ↔ e = (k, v) ∨ e ∈ m.entries := by
  by_cases he : Equiv lt e.1 k
  · constructor
    · intro hmem
      obtain ⟨hv, hk | ⟨e', he', hk⟩⟩ := mem_insert_equiv he hmem
      · exact .inl (Prod.ext hk hv)
      · exact absurd (hk ▸ he) (h e' he')
    · rintro (rfl | hmem)
      · exact mem_insert_self h
      · exact absurd he (h e hmem)
  · rw [mem_insert_other he]
    refine ⟨.inr, fun hmem => hmem.resolve_left ?_⟩
    rintro rfl
    exact he ⟨irrefl_of lt k, irrefl_of lt k⟩

/-- Assignments of new keys. -/
theorem mem_insertAll (hes : es.Pairwise fun a b => lt a.1 b.1) (h : ∀ e ∈ es, m.Absent e.1) :
    e ∈ (m.insertAll es).entries ↔ e ∈ es ∨ e ∈ m.entries := by
  induction es generalizing m with
  | nil => exact ⟨.inr, fun hmem => hmem.resolve_left nofun⟩
  | cons e' es ih =>
    obtain ⟨hhead, htail⟩ := List.pairwise_cons.mp hes
    have habsent := h e' (.head _)
    have hrest : ∀ a ∈ es, (m.insert e'.1 e'.2).Absent a.1 := by
      intro a ha a' ha' heq
      obtain rfl | hmem := (mem_insert_absent habsent).mp ha'
      · exact heq.1 (hhead a ha)
      · exact h a (.tail _ ha) a' hmem heq
    show e ∈ ((m.insert e'.1 e'.2).insertAll es).entries ↔ _
    rw [ih htail hrest, mem_insert_absent habsent, List.mem_cons, or_left_comm, or_assoc]

omit [DecidableRel lt] in
theorem nodup_entries (m : SortedMap α γ lt) : m.entries.Nodup := by
  refine m.sorted.imp fun {a b} hlt => ?_
  rintro rfl
  exact irrefl_of lt a.1 hlt

omit [DecidableRel lt] in
/-- Maps are known by what their entries are. -/
theorem ext_mem (h : ∀ e, e ∈ m.entries ↔ e ∈ m'.entries) : m = m' := by
  refine ext_entries (List.Perm.eq_of_pairwise (fun a b _ _ hab hba => ?_) m.sorted m'.sorted ?_)
  · exact absurd hab (asymm_of lt hba)
  · exact (List.perm_ext_iff_of_nodup m.nodup_entries m'.nodup_entries).mpr h

omit [IsStrictWeakOrder α lt] in
theorem find_absent (h : m.Absent k) : m.find k = none := by
  unfold find
  rw [List.find?_eq_none.mpr fun e he => by simpa using h e he]
  rfl

/-! ## Assignments that are looked up -/

theorem find_insertAll_of_absent (h : ∀ e ∈ es, ¬ Equiv lt e.1 k) :
    (m.insertAll es).find k = m.find k := by
  induction es generalizing m with
  | nil => rfl
  | cons e es ih =>
    show ((m.insert e.1 e.2).insertAll es).find k = _
    rw [ih fun e' he' => h e' (.tail _ he'), find_insert, if_neg (h e (.head _))]

/-- Assignments to a key that agree. -/
theorem find_insertAll_of_mem (hmem : e ∈ es) (he : Equiv lt e.1 k)
    (honly : ∀ e' ∈ es, Equiv lt e'.1 k → e'.2 = e.2) : (m.insertAll es).find k = some e.2 := by
  induction es generalizing m e with
  | nil => cases hmem
  | cons e₀ es ih =>
    show ((m.insert e₀.1 e₀.2).insertAll es).find k = _
    by_cases hlater : ∃ e' ∈ es, Equiv lt e'.1 k
    · obtain ⟨e', hmem', he'⟩ := hlater
      have hvalue := honly e' (.tail _ hmem') he'
      rw [ih hmem' he' fun e'' hmem'' he'' => ?_, hvalue]
      rw [hvalue, honly e'' (.tail _ hmem'') he'']
    · rw [not_exists] at hlater
      rw [find_insertAll_of_absent fun e' hmem' he' => hlater e' ⟨hmem', he'⟩, find_insert]
      cases hmem with
      | head => rw [if_pos he]
      | tail _ hmem => exact absurd ⟨hmem, he⟩ (hlater e)

/-- What assignments leave in a key: the last of them counts. -/
def lastValue (lt : α → α → Prop) [DecidableRel lt] (es : List (α × γ)) (k : α) : Option γ :=
  (es.reverse.find? fun e => Equiv lt e.1 k).map Prod.snd

omit [IsStrictWeakOrder α lt] in
theorem lastValue_append (es es' : List (α × γ)) (k : α) :
    lastValue lt (es ++ es') k = (lastValue lt es' k).or (lastValue lt es k) := by
  rw [lastValue, List.reverse_append, List.find?_append, Option.map_or]
  rfl

theorem find_insertAll (m : SortedMap α γ lt) (es : List (α × γ)) (k : α) :
    (m.insertAll es).find k = (lastValue lt es k).or (m.find k) := by
  induction es generalizing m with
  | nil => rfl
  | cons e es ih =>
    have hone : lastValue lt [e] k = if Equiv lt e.1 k then some e.2 else none := by
      unfold lastValue
      by_cases he : Equiv lt e.1 k <;> simp [he]
    have hcons : lastValue lt (e :: es) k = (lastValue lt es k).or (lastValue lt [e] k) :=
      lastValue_append [e] es k
    show ((m.insert e.1 e.2).insertAll es).find k = _
    rw [ih, find_insert, hcons, hone, Option.or_assoc]
    split <;> rfl

theorem find_erase (m : SortedMap α γ lt) (k k' : α) :
    (m.erase k).find k' = if Equiv lt k k' then none else m.find k' := by
  show ((m.entries.filter fun e => ¬ Equiv lt e.1 k).find? fun e => Equiv lt e.1 k').map _ = _
  by_cases hk : Equiv lt k k'
  · rw [if_pos hk, List.find?_eq_none.mpr fun e hmem => ?_]
    · rfl
    · have hne : ¬ Equiv lt e.1 k := of_decide_eq_true (List.mem_filter.mp hmem).2
      exact fun he => hne (Equiv.trans (of_decide_eq_true he) ⟨hk.2, hk.1⟩)
  · rw [if_neg hk, List.find?_filter]
    refine congrArg (fun q => (List.find? q m.entries).map Prod.snd) (funext fun e => ?_)
    by_cases he : Equiv lt e.1 k'
    · have hne : ¬ Equiv lt e.1 k := fun h => hk (Equiv.trans ⟨h.2, h.1⟩ he)
      simp [he, hne]
    · simp [he]

omit [IsStrictWeakOrder α lt] in
theorem mem_of_find (h : m.find k = some v) : ∃ e ∈ m.entries, Equiv lt e.1 k ∧ e.2 = v := by
  obtain ⟨e, he, rfl⟩ := Option.map_eq_some_iff.mp h
  exact ⟨e, List.mem_of_find?_eq_some he, by simpa using List.find?_some he, rfl⟩

theorem find_of_mem (hmem : e ∈ m.entries) : m.find e.1 = some e.2 := by
  have hsorted := m.sorted
  unfold find
  generalize m.entries = es at hmem hsorted
  induction es with
  | nil => cases hmem
  | cons e' es ih =>
    obtain ⟨hhead, htail⟩ := List.pairwise_cons.mp hsorted
    cases hmem with
    | head =>
      have hself : Equiv lt e.1 e.1 := ⟨irrefl_of lt e.1, irrefl_of lt e.1⟩
      simp [hself]
    | tail _ hmem =>
      have hne : ¬ Equiv lt e'.1 e.1 := fun heq => heq.1 (hhead e hmem)
      rw [List.find?_cons_of_neg (by simpa using hne)]
      exact ih hmem htail

/-- What is true of the keys and of the values that are assigned. -/
theorem forall_insertAll {P : α → Prop} {Q : γ → Prop} (hes : ∀ e ∈ es, P e.1 ∧ Q e.2)
    (h : ∀ e ∈ m.entries, P e.1 ∧ Q e.2) : ∀ e ∈ (m.insertAll es).entries, P e.1 ∧ Q e.2 := by
  induction es generalizing m with
  | nil => exact h
  | cons e es ih =>
    obtain ⟨⟨hkey, hvalue⟩, hrest⟩ := List.forall_mem_cons.mp hes
    refine ih hrest (m := m.insert e.1 e.2) fun e' hmem => ?_
    by_cases heq : Equiv lt e'.1 e.1
    · obtain ⟨hv, hk | ⟨e₁, hmem₁, hk⟩⟩ := mem_insert_equiv heq hmem
      · exact ⟨hk ▸ hkey, hv ▸ hvalue⟩
      · exact ⟨hk ▸ (h e₁ hmem₁).1, hv ▸ hvalue⟩
    · exact h e' ((mem_insert_other heq).mp hmem)

/-- Assignments to other keys do not matter. -/
theorem find_insertAll_filter (q : α × γ → Bool) (hq : ∀ e ∈ es, Equiv lt e.1 k → q e = true)
    (h : m.find k = m'.find k) :
    (m.insertAll es).find k = (m'.insertAll (es.filter q)).find k := by
  induction es generalizing m m' with
  | nil => exact h
  | cons e es ih =>
    have hq' : ∀ e ∈ es, Equiv lt e.1 k → q e = true := fun e' he' => hq e' (.tail _ he')
    show ((m.insert e.1 e.2).insertAll es).find k = _
    cases hqe : q e with
    | true =>
      rw [List.filter_cons_of_pos hqe]
      refine ih hq' ?_
      rw [find_insert, find_insert, h]
    | false =>
      rw [List.filter_cons_of_neg (by simp [hqe])]
      refine ih hq' ?_
      have hne : ¬ Equiv lt e.1 k := fun he => by simp [hq e (.head _) he] at hqe
      rw [find_insert, if_neg hne, h]

end SortedMap
