import Mathlib.Data.List.Nodup

/-!
# Keyed tables

A table is a list of rows no two of which carry the same key: a vector searched
by an identifier, or a hash map written down in some order. The uniqueness of
the keys is a field of the structure, so that a row is determined by its key
and searching for a key is the same as searching for a row:

* `Table.get?` searches a key, `Table.put` inserts a row or replaces the one
  with its key, `Table.modify` edits the row with a key in place, and
  `Table.retain` drops the rows failing a test;
* `Table.get?_eq_some_iff` turns a search into membership, and `Table.get?_put`,
  `Table.get?_modify` and `Table.get?_retain` say what each operation does to
  every search; `Table.get?_perm` says that the order of the rows does not matter to it.
-/

/-- Rows no two of which share a key. -/
structure Table {α κ : Type} (key : α → κ) where
  rows : List α
  nodup : (rows.map key).Nodup

namespace Table

variable {α κ : Type} {key : α → κ}

@[ext]
theorem ext {t u : Table key} (h : t.rows = u.rows) : t = u := by
  cases t
  cases u
  cases h
  rfl

/-- The table without rows. -/
def empty : Table key := ⟨[], List.nodup_nil⟩

instance : Inhabited (Table key) := ⟨empty⟩

@[simp]
theorem rows_empty : (empty : Table key).rows = [] := rfl

/-- Keep the rows passing a test. -/
def retain (t : Table key) (p : α → Bool) : Table key where
  rows := t.rows.filter p
  nodup := t.nodup.sublist (List.filter_sublist.map key)

@[simp]
theorem mem_rows_retain {t : Table key} {p : α → Bool} {a : α} :
    a ∈ (t.retain p).rows ↔ a ∈ t.rows ∧ p a := by
  simp [retain]

theorem retain_perm {t u : Table key} (h : t.rows.Perm u.rows) (p : α → Bool) :
    (t.retain p).rows.Perm (u.retain p).rows :=
  h.filter p

/-- A row is determined by its key. -/
theorem eq_of_key_eq {t : Table key} {a b : α} (ha : a ∈ t.rows) (hb : b ∈ t.rows)
    (h : key a = key b) : a = b :=
  List.inj_on_of_nodup_map t.nodup ha hb h

variable [DecidableEq κ]

/-- The row with the key `k`, if any. -/
def get? (t : Table key) (k : κ) : Option α := t.rows.find? (fun a => key a = k)

/-- Whether some row has the key `k`. -/
def contains (t : Table key) (k : κ) : Bool := (t.get? k).isSome

/-- Edit the row with the key `k` in place, by a function keeping keys. -/
def modify (t : Table key) (k : κ) (f : α → α) (hf : ∀ a, key (f a) = key a) : Table key where
  rows := t.rows.map (fun a => if key a = k then f a else a)
  nodup := by
    have hk : key ∘ (fun a => if key a = k then f a else a) = key := by
      funext a
      by_cases h : key a = k <;> simp [h, hf]
    rw [List.map_map, hk]
    exact t.nodup

/-- Insert a row, in place of the row with its key if there is one and at the
    end otherwise. -/
def put (t : Table key) (a : α) : Table key where
  rows := if key a ∈ t.rows.map key
    then t.rows.map (fun b => if key b = key a then a else b)
    else t.rows ++ [a]
  nodup := by
    split
    · next =>
      have hk : key ∘ (fun b => if key b = key a then a else b) = key := by
        funext b
        by_cases h : key b = key a <;> simp [h]
      rw [List.map_map, hk]
      exact t.nodup
    · next h =>
      rw [List.map_append, List.map_singleton]
      exact t.nodup.append (List.nodup_singleton _) (by simpa using h)

/-- Drop the row with the key `k`. -/
def erase (t : Table key) (k : κ) : Table key := t.retain (fun a => key a ≠ k)

/-! ## Searching a key -/

@[simp]
theorem get?_empty {k : κ} : (empty : Table key).get? k = none := rfl

theorem mem_of_get? {t : Table key} {k : κ} {a : α} (h : t.get? k = some a) : a ∈ t.rows :=
  List.mem_of_find?_eq_some h

theorem key_of_get? {t : Table key} {k : κ} {a : α} (h : t.get? k = some a) : key a = k := by
  simpa using List.find?_some h

theorem get?_of_mem {t : Table key} {a : α} (h : a ∈ t.rows) : t.get? (key a) = some a := by
  cases hg : t.get? (key a) with
  | none =>
    have := List.find?_eq_none.mp hg a h
    simp at this
  | some b => rw [eq_of_key_eq (mem_of_get? hg) h (key_of_get? hg)]

theorem get?_eq_some_iff {t : Table key} {k : κ} {a : α} :
    t.get? k = some a ↔ a ∈ t.rows ∧ key a = k := by
  constructor
  · exact fun h => ⟨mem_of_get? h, key_of_get? h⟩
  · rintro ⟨h, rfl⟩
    exact get?_of_mem h

theorem get?_eq_none_iff {t : Table key} {k : κ} :
    t.get? k = none ↔ ∀ a ∈ t.rows, key a ≠ k := by
  simp [get?]

theorem mem_keys_iff {t : Table key} {k : κ} : k ∈ t.rows.map key ↔ (t.get? k).isSome := by
  rw [Option.isSome_iff_exists]
  constructor
  · intro h
    obtain ⟨a, ha, rfl⟩ := List.mem_map.mp h
    exact ⟨a, get?_of_mem ha⟩
  · rintro ⟨a, ha⟩
    exact List.mem_map.mpr ⟨a, mem_of_get? ha, key_of_get? ha⟩

/-! ## The effect of the operations -/

theorem mem_rows_modify {t : Table key} {k : κ} {f : α → α} {hf : ∀ a, key (f a) = key a}
    {a : α} : a ∈ (t.modify k f hf).rows ↔
      ∃ b ∈ t.rows, a = if key b = k then f b else b := by
  simp [modify, eq_comm]

theorem mem_rows_put {t : Table key} {a b : α} :
    b ∈ (t.put a).rows ↔ b = a ∨ (b ∈ t.rows ∧ key b ≠ key a) := by
  by_cases h : key a ∈ t.rows.map key
  · simp only [put, h, if_true, List.mem_map]
    constructor
    · rintro ⟨c, hc, rfl⟩
      by_cases hk : key c = key a
      · simp [hk]
      · simp [hk, hc]
    · rintro (rfl | ⟨hb, hk⟩)
      · obtain ⟨c, hc, hk⟩ := List.mem_map.mp h
        exact ⟨c, hc, by simp [hk]⟩
      · exact ⟨b, hb, by simp [hk]⟩
  · simp only [put, h, if_false, List.mem_append, List.mem_singleton]
    constructor
    · rintro (hb | rfl)
      · refine .inr ⟨hb, fun hk => h ?_⟩
        exact hk ▸ List.mem_map_of_mem hb
      · exact .inl rfl
    · rintro (rfl | ⟨hb, -⟩)
      · exact .inr rfl
      · exact .inl hb

theorem get?_put {t : Table key} {a : α} {k : κ} :
    (t.put a).get? k = if k = key a then some a else t.get? k := by
  by_cases hk : k = key a
  · subst hk
    rw [if_pos rfl]
    exact get?_of_mem (mem_rows_put.mpr (.inl rfl))
  · rw [if_neg hk]
    cases hg : t.get? k with
    | none =>
      refine get?_eq_none_iff.mpr fun b hb => ?_
      rcases mem_rows_put.mp hb with rfl | ⟨hb, -⟩
      · exact fun h => hk h.symm
      · exact get?_eq_none_iff.mp hg b hb
    | some b =>
      refine get?_eq_some_iff.mpr ⟨mem_rows_put.mpr (.inr ⟨mem_of_get? hg, ?_⟩), key_of_get? hg⟩
      rw [key_of_get? hg]
      exact hk

theorem isSome_get?_put {t : Table key} {a : α} {k : κ} :
    ((t.put a).get? k).isSome ↔ k = key a ∨ (t.get? k).isSome := by
  rw [get?_put]
  split <;> simp_all

theorem get?_modify {t : Table key} {k j : κ} {f : α → α} {hf : ∀ a, key (f a) = key a} :
    (t.modify k f hf).get? j = if j = k then (t.get? j).map f else t.get? j := by
  cases hg : t.get? j with
  | none =>
    rw [Option.map_none, ite_self]
    refine get?_eq_none_iff.mpr fun a ha => ?_
    obtain ⟨b, hb, rfl⟩ := mem_rows_modify.mp ha
    have hj := get?_eq_none_iff.mp hg b hb
    by_cases h : key b = k <;> simpa [h, hf] using hj
  | some a =>
    have hk := key_of_get? hg
    by_cases h : j = k
    · rw [if_pos h, Option.map_some]
      refine get?_eq_some_iff.mpr ⟨mem_rows_modify.mpr ⟨a, mem_of_get? hg, ?_⟩, (hf a).trans hk⟩
      rw [if_pos (hk.trans h)]
    · rw [if_neg h]
      refine get?_eq_some_iff.mpr ⟨mem_rows_modify.mpr ⟨a, mem_of_get? hg, ?_⟩, hk⟩
      rw [if_neg (fun h' => h (hk.symm.trans h'))]

theorem get?_retain {t : Table key} {p : α → Bool} {k : κ} :
    (t.retain p).get? k = (t.get? k).filter p := by
  cases hg : t.get? k with
  | none =>
    refine get?_eq_none_iff.mpr fun a ha => ?_
    exact get?_eq_none_iff.mp hg a (mem_rows_retain.mp ha).1
  | some a =>
    by_cases hp : p a
    · simp only [Option.filter, hp, if_true]
      exact get?_eq_some_iff.mpr ⟨mem_rows_retain.mpr ⟨mem_of_get? hg, hp⟩, key_of_get? hg⟩
    · simp only [Option.filter, hp]
      refine get?_eq_none_iff.mpr fun b hb hk => ?_
      obtain ⟨hb, hpb⟩ := mem_rows_retain.mp hb
      rw [eq_of_key_eq hb (mem_of_get? hg) (hk.trans (key_of_get? hg).symm)] at hpb
      exact hp hpb

/-- Searching in a table of edited rows of another one. -/
theorem get?_of_rows {t u : Table key} {p : α → Bool} {f : α → α} {k : κ}
    (hf : ∀ a, key (f a) = key a) (h : u.rows = (t.rows.filter p).map f) :
    u.get? k = ((t.get? k).filter p).map f := by
  have hk : ((fun a => decide (key a = k)) ∘ f) = fun a => decide (key a = k) := by
    funext a
    simp [hf]
  rw [← get?_retain, get?, h, List.find?_map, hk]
  rfl

theorem get?_erase {t : Table key} {k j : κ} :
    (t.erase k).get? j = if j = k then none else t.get? j := by
  rw [erase, get?_retain]
  cases hg : t.get? j with
  | none => simp
  | some a =>
    have hk := key_of_get? hg
    by_cases h : j = k <;> simp [Option.filter, hk, h]

@[simp]
theorem mem_rows_erase {t : Table key} {k : κ} {a : α} :
    a ∈ (t.erase k).rows ↔ a ∈ t.rows ∧ key a ≠ k := by
  simp [erase]

/-! ## Several operations in a row -/

variable {P : α → Prop}

/-- What the rows satisfy and the function keeps, the rows satisfy after several of
    them were modified. -/
theorem forall_foldl_modify {t : Table key} {l : List α} (f : α → α)
    (hf : ∀ a, key (f a) = key a) (h : ∀ a ∈ t.rows, P a)
    (hP : ∀ b ∈ l, ∀ a, key a = key b → P a → P (f a)) :
    ∀ a ∈ (l.foldl (fun t b => t.modify (key b) f hf) t).rows, P a := by
  induction l generalizing t with
  | nil => exact h
  | cons b l ih =>
    refine ih (fun a ha => ?_) fun c hc => hP c (List.mem_cons_of_mem _ hc)
    obtain ⟨c, hc, rfl⟩ := mem_rows_modify.mp ha
    split
    · next hk => exact hP b List.mem_cons_self c hk (h c hc)
    · exact h c hc

theorem forall_foldl_erase {t : Table key} {l : List α} (h : ∀ a ∈ t.rows, P a) :
    ∀ a ∈ (l.foldl (fun t b => t.erase (key b)) t).rows, P a := by
  induction l generalizing t with
  | nil => exact h
  | cons b l ih => exact ih fun a ha => h a (mem_rows_erase.mp ha).1

/-- The row with the key of one of several is modified, once if the function has no further
    effect. -/
theorem get?_foldl_modify {t : Table key} {l : List α} (f : α → α) (hf : ∀ a, key (f a) = key a)
    (hff : ∀ a, f (f a) = f a) {k : κ} :
    (l.foldl (fun t b => t.modify (key b) f hf) t).get? k =
      if k ∈ l.map key then (t.get? k).map f else t.get? k := by
  induction l generalizing t with
  | nil => rfl
  | cons b l ih =>
    have htwice : (t.get? k).map (f ∘ f) = (t.get? k).map f := by
      rw [show f ∘ f = f from funext hff]
    rw [List.foldl_cons, ih, get?_modify, List.map_cons]
    by_cases hb : k = key b
    · rw [if_pos hb, Option.map_map, htwice, ite_self, if_pos (List.mem_cons.mpr (.inl hb))]
    · simp only [List.mem_cons, hb, false_or, if_false]

/-- The row with the key of one of several is dropped. -/
theorem get?_foldl_erase {t : Table key} {l : List α} {k : κ} :
    (l.foldl (fun t b => t.erase (key b)) t).get? k =
      if k ∈ l.map key then none else t.get? k := by
  induction l generalizing t with
  | nil => rfl
  | cons b l ih =>
    rw [List.foldl_cons, ih, get?_erase, List.map_cons]
    by_cases hb : k = key b
    · rw [if_pos hb, ite_self, if_pos (List.mem_cons.mpr (.inl hb))]
    · simp only [List.mem_cons, hb, false_or, if_false]

/-- Rows of new keys are added at the end. -/
theorem rows_foldl_put {t : Table key} {l : List α} (h : ((t.rows ++ l).map key).Nodup) :
    (l.foldl put t).rows = t.rows ++ l := by
  induction l generalizing t with
  | nil => exact (List.append_nil _).symm
  | cons a l ih =>
    have hn : key a ∉ t.rows.map key := by
      rw [List.map_append, List.map_cons] at h
      exact fun ha => (List.nodup_append.mp h).2.2 _ ha _ List.mem_cons_self rfl
    have hp : (t.put a).rows = t.rows ++ [a] := if_neg hn
    have hl : (t.put a).rows ++ l = t.rows ++ a :: l := by
      rw [hp, List.append_assoc, List.singleton_append]
    rw [List.foldl_cons, ih (hl ▸ h), hl]

/-! ## Rows in another order -/

/-- The same rows in another order are found alike. -/
theorem get?_perm {t u : Table key} (h : t.rows.Perm u.rows) (k : κ) : t.get? k = u.get? k := by
  cases hg : u.get? k with
  | none =>
    have hne := get?_eq_none_iff.mp hg
    exact get?_eq_none_iff.mpr fun a ha => hne a (h.subset ha)
  | some a =>
    have ha := get?_eq_some_iff.mp hg
    exact get?_eq_some_iff.mpr ⟨h.symm.subset ha.1, ha.2⟩

theorem put_perm {t u : Table key} (h : t.rows.Perm u.rows) (a : α) :
    (t.put a).rows.Perm (u.put a).rows := by
  have hmem : key a ∈ t.rows.map key ↔ key a ∈ u.rows.map key := (h.map key).mem_iff
  dsimp only [put]
  by_cases hk : key a ∈ t.rows.map key
  · rw [if_pos hk, if_pos (hmem.mp hk)]
    exact h.map _
  · rw [if_neg hk, if_neg (fun hu => hk (hmem.mpr hu))]
    exact h.append_right _

theorem modify_perm {t u : Table key} (h : t.rows.Perm u.rows) (k : κ) (f : α → α)
    (hf : ∀ a, key (f a) = key a) : (t.modify k f hf).rows.Perm (u.modify k f hf).rows :=
  h.map _

end Table
