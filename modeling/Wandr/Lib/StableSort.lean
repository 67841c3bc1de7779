import Mathlib.Data.List.Destutter
import Mathlib.Data.List.Sort

/-!
# Sorting keeps the order of equals

A list sorted by insertion, seen through a filter, is the filtered list sorted
(`List.filter_insertionSort`). So the first element of the sorted list that has a property is,
in the list as it was, the first of the greatest that have it (`List.find?_insertionSort`).

A list sorted by an integer key, of which each key is kept once, holds the first of the list for
each key, key by key (`List.destutter_insertionSort`).
-/

namespace List

variable {α : Type*} {r : α → α → Prop} [DecidableRel r] {p q : α → Bool} {a : α} {l : List α}

theorem orderedInsert_of_forall_rel (h : ∀ b ∈ l, r a b) : l.orderedInsert r a = a :: l := by
  cases l with
  | nil => rfl
  | cons b l => exact orderedInsert_cons_of_le r l (h b mem_cons_self)

theorem filter_orderedInsert_of_neg (h : p a = false) :
    (l.orderedInsert r a).filter p = l.filter p := by
  induction l with
  | nil => simp [h]
  | cons b l ih =>
    rw [orderedInsert_cons]
    split
    · rw [filter_cons_of_neg (by simp [h])]
    · rw [filter_cons, filter_cons, ih]

variable [IsTrans α r]

theorem filter_orderedInsert_of_pos (h : p a) (hl : l.Pairwise r) :
    (l.orderedInsert r a).filter p = (l.filter p).orderedInsert r a := by
  induction l with
  | nil => simp [h]
  | cons b l ih =>
    obtain ⟨hb, hl⟩ := pairwise_cons.mp hl
    rw [orderedInsert_cons]
    split
    · next hab =>
      rw [filter_cons_of_pos h, orderedInsert_of_forall_rel fun c hc => ?_]
      rcases mem_cons.mp (mem_of_mem_filter hc) with rfl | hc
      · exact hab
      · exact IsTrans.trans a b c hab (hb c hc)
    · next hab =>
      by_cases hp : p b
      · rw [filter_cons_of_pos hp, filter_cons_of_pos hp, ih hl, orderedInsert_of_not_le r _ hab]
      · rw [filter_cons_of_neg hp, filter_cons_of_neg hp, ih hl]

variable [Std.Total r]

theorem filter_insertionSort : (l.insertionSort r).filter p = (l.filter p).insertionSort r := by
  induction l with
  | nil => rfl
  | cons a l ih =>
    rw [insertionSort_cons]
    by_cases hp : p a
    · rw [filter_orderedInsert_of_pos hp (pairwise_insertionSort r l), ih, filter_cons_of_pos hp,
        insertionSort_cons]
    · rw [filter_orderedInsert_of_neg (by simpa using hp), ih, filter_cons_of_neg hp]

/-- The first in the order that has a property is the first of the greatest that have it. -/
theorem find?_insertionSort (hq : ∀ a ∈ l, q a ↔ p a ∧ ∀ b ∈ l, p b → r a b) :
    (l.insertionSort r).find? p = l.find? q := by
  have hmem {a : α} : a ∈ l.insertionSort r ↔ a ∈ l := mem_insertionSort r
  cases hf : (l.insertionSort r).find? p with
  | none =>
    refine (find?_eq_none.mpr fun a ha hqa => ?_).symm
    exact find?_eq_none.mp hf a (hmem.mpr ha) ((hq a ha).mp hqa).1
  | some x =>
    obtain ⟨hpx, as, bs, hs, has⟩ := find?_eq_some_iff_append.mp hf
    have hsorted := hs ▸ pairwise_insertionSort r l
    have hx : x ∈ l := hmem.mp (by simp [hs])
    have hqx : q x := by
      refine (hq x hx).mpr ⟨hpx, fun b hb hpb => ?_⟩
      rcases mem_append.mp (hs ▸ hmem.mpr hb) with hb | hb
      · exact absurd hpb (by simpa using has b hb)
      · rcases mem_cons.mp hb with rfl | hb
        · exact (Std.Total.total b b).elim id id
        · exact (pairwise_cons.mp (pairwise_append.mp hsorted).2.1).1 b hb
    -- Those that are as great as it are in the order they were in.
    have hgreatest : (l.insertionSort r).find? q = l.find? q := by
      rw [← head?_filter, filter_insertionSort, ← head?_filter, Pairwise.insertionSort_eq]
      refine pairwise_iff_forall_sublist.mpr fun {a b} hab => ?_
      obtain ⟨ha, hqa⟩ := mem_filter.mp (hab.subset mem_cons_self)
      obtain ⟨hb, hqb⟩ := mem_filter.mp (hab.subset (mem_cons_of_mem a mem_cons_self))
      exact ((hq a ha).mp hqa).2 b hb ((hq b hb).mp hqb).1
    rw [← hgreatest]
    refine (find?_eq_some_iff_append.mpr ⟨hqx, as, bs, hs, fun b hb => ?_⟩).symm
    have hbl : b ∈ l := hmem.mp (by simp [hs, hb])
    have hpb := has b hb
    cases hqb : q b with
    | false => rfl
    | true =>
      rw [((hq b hbl).mp hqb).1] at hpb
      exact absurd hpb (by decide)

/-! ## Each key once -/

section

variable {κ : Type*} [DecidableEq κ] {g : α → κ} {f : α → Int} {n : Nat} {m : Int}

theorem find?_destutter' (hp : ∀ a b, g a = g b → p a = p b) :
    (l.destutter' (fun a b => g a ≠ g b) a).find? p = (a :: l).find? p := by
  induction l generalizing a with
  | nil =>
    rw [destutter'_nil]
  | cons b l ih =>
    rw [destutter'_cons]
    split
    · rw [find?_cons, find?_cons, ih]
    · next hab =>
      have hab : p a = p b := hp a b (not_not.mp hab)
      rw [ih, find?_cons, find?_cons, find?_cons, ← hab]
      cases p a <;> rfl

/-- The first of a key is kept. -/
theorem find?_destutter (hp : ∀ a b, g a = g b → p a = p b) :
    (l.destutter fun a b => g a ≠ g b).find? p = l.find? p := by
  cases l with
  | nil => rfl
  | cons a l => exact find?_destutter' hp

/-- What is left of a sorted list has increasing keys. -/
theorem pairwise_destutter (hg : ∀ a b, g a = g b ↔ f a = f b)
    (hl : l.Pairwise fun a b => f a ≤ f b) :
    (l.destutter fun a b => g a ≠ g b).Pairwise fun a b => f a < f b := by
  have htrans : Trans (fun a b : α => f a < f b) (fun a b : α => f a < f b)
      (fun a b : α => f a < f b) := ⟨fun hab hbc => Int.lt_trans hab hbc⟩
  rw [← isChain_iff_pairwise]
  have hle : (l.destutter fun a b => g a ≠ g b).IsChain fun a b => f a ≤ f b :=
    (hl.sublist (destutter_sublist _ l)).isChain
  have hne : (l.destutter fun a b => g a ≠ g b).IsChain fun a b => g a ≠ g b :=
    isChain_destutter _ l
  rw [isChain_iff_getElem] at hle hne ⊢
  exact fun i hi => lt_of_le_of_ne (hle i hi) fun he => hne i hi ((hg _ _).mpr he)

/-- A list with increasing keys, key by key. -/
theorem eq_filterMap_find? (hl : l.Pairwise fun a b => f a < f b)
    (hb : ∀ a ∈ l, m ≤ f a ∧ f a < m + n) :
    l = (range n).filterMap fun i : Nat => l.find? fun a => f a = m + (i : Int) := by
  have hirr : Std.Irrefl fun a b : α => f a < f b := ⟨fun a => Int.lt_irrefl (f a)⟩
  have hfind {a : α} (ha : a ∈ l) : l.find? (fun b => f b = f a) = some a := by
    cases hf : l.find? (fun b => f b = f a) with
    | none => exact absurd (decide_eq_true rfl) (find?_eq_none.mp hf a ha)
    | some b =>
      have hba : f b = f a := by simpa using find?_some hf
      have hinj : (l.map f).Nodup := hl.map f (fun a b h => by omega)
      exact congrArg some (inj_on_of_nodup_map hinj (mem_of_find?_eq_some hf) ha hba)
  refine Subset.antisymm_of_pairwise hl ?_ (fun a ha => ?_) fun a ha => ?_
  · refine pairwise_lt_range.filterMap _ fun i j hij a ha b hb' => ?_
    have ha : f a = m + i := by simpa using find?_some ha
    have hb' : f b = m + j := by simpa using find?_some hb'
    omega
  · obtain ⟨hlo, hhi⟩ := hb a ha
    refine mem_filterMap.mpr ⟨(f a - m).toNat, mem_range.mpr (by omega), ?_⟩
    have hk : m + ((f a - m).toNat : Int) = f a := by omega
    rw [hk]
    exact hfind ha
  · obtain ⟨i, -, hi⟩ := mem_filterMap.mp ha
    exact mem_of_find?_eq_some hi

/-- Sorted by their keys and each key kept once, the elements are the first of each key. -/
theorem destutter_insertionSort (hg : ∀ a b, g a = g b ↔ f a = f b)
    (hb : ∀ a ∈ l, m ≤ f a ∧ f a < m + n) :
    ((l.insertionSort fun a b => f a ≤ f b).destutter fun a b => g a ≠ g b) =
      (range n).filterMap fun i : Nat => l.find? fun a => f a = m + (i : Int) := by
  have htotal : Std.Total fun a b : α => f a ≤ f b := ⟨fun a b => Int.le_total (f a) (f b)⟩
  have htrans : IsTrans α fun a b => f a ≤ f b := ⟨fun _ _ _ => Int.le_trans⟩
  have hmem {a : α} (ha : a ∈ (l.insertionSort fun a b => f a ≤ f b).destutter
      fun a b => g a ≠ g b) : a ∈ l :=
    (mem_insertionSort _).mp ((destutter_sublist _ _).subset ha)
  rw [eq_filterMap_find? (pairwise_destutter hg (pairwise_insertionSort _ l)) fun a ha =>
    hb a (hmem ha)]
  refine filterMap_congr fun i _ => ?_
  rw [find?_destutter fun a b hab => by rw [(hg a b).mp hab]]
  -- Of one key, the order is what it was.
  refine find?_insertionSort fun a _ => ⟨fun ha => ⟨ha, fun b _ hb' => ?_⟩, And.left⟩
  have ha : f a = m + i := by simpa using ha
  have hb' : f b = m + i := by simpa using hb'
  omega

end

end List
