import Mathlib.Data.List.Sort
import Mathlib.Order.Basic

/-!
`sorted(xs, key=...)` followed by `itertools.groupby(..., key=...)`. The sort is stable; `groupby` cuts
a list into its maximal runs of equal keys, so that on a sorted list there is one group per key.
-/

namespace OfTestbed.Lib

variable {α κ : Type}

def sortedBy [LinearOrder κ] (key : α → κ) (l : List α) : List α :=
  l.insertionSort fun a b => key a ≤ key b

def groupby [DecidableEq κ] (key : α → κ) : List α → List (κ × List α)
  | [] => []
  | a :: l =>
      match groupby key l with
      | [] => [(key a, [a])]
      | (k, group) :: rest =>
          if key a = k then (k, a :: group) :: rest else (key a, [a]) :: (k, group) :: rest

theorem mem_sortedBy [LinearOrder κ] {key : α → κ} {l : List α} {a : α} :
    a ∈ sortedBy key l ↔ a ∈ l :=
  List.mem_insertionSort _

theorem perm_sortedBy [LinearOrder κ] (key : α → κ) (l : List α) : (sortedBy key l).Perm l :=
  List.perm_insertionSort _ l

theorem pairwise_sortedBy [LinearOrder κ] (key : α → κ) (l : List α) :
    (sortedBy key l).Pairwise fun a b => key a ≤ key b := by
  have : Std.Total fun a b : α => key a ≤ key b := ⟨fun a b => le_total (key a) (key b)⟩
  have : IsTrans α fun a b : α => key a ≤ key b := ⟨fun _ _ _ h h' => le_trans h h'⟩
  exact List.pairwise_insertionSort _ l

section Groups

variable [LinearOrder κ] {key : α → κ} {l : List α} {groups : List (κ × List α)}

/-- One group per key of the list, holding the elements with that key, in increasing order of the keys. -/
structure Groups (key : α → κ) (l : List α) (groups : List (κ × List α)) : Prop where
  increasing : groups.Pairwise fun g h => g.1 < h.1
  mem_iff : ∀ k group, (k, group) ∈ groups ↔ (∃ a ∈ l, key a = k) ∧ group = l.filter fun a => key a = k

theorem Groups.mem_filter (h : Groups key l groups) {a : α} (ha : a ∈ l) :
    (key a, l.filter fun b => key b = key a) ∈ groups :=
  (h.mem_iff _ _).mpr ⟨⟨a, ha, rfl⟩, rfl⟩

/-- An element with a smaller key than all others opens a group. -/
theorem Groups.fresh (h : Groups key l groups) {a : α} (hlt : ∀ b ∈ l, key a < key b) :
    Groups key (a :: l) ((key a, [a]) :: groups) where
  increasing := by
    refine List.pairwise_cons.mpr ⟨fun g hg => ?_, h.increasing⟩
    obtain ⟨⟨b, hb, hkey⟩, -⟩ := (h.mem_iff g.1 g.2).mp hg
    exact hkey ▸ hlt b hb
  mem_iff := by
    intro k group
    rw [List.mem_cons, Prod.mk.injEq, h.mem_iff, List.exists_mem_cons_iff, List.filter_cons]
    by_cases hk : key a = k
    · subst hk
      have hnone : ¬∃ b ∈ l, key b = key a := fun ⟨b, hb, heq⟩ => (hlt b hb).ne' heq
      have hempty : (l.filter fun b => key b = key a) = [] := by
        rw [List.filter_eq_nil_iff]
        intro b hb
        simpa using (hlt b hb).ne'
      simp [hnone, hempty]
    · simp [hk, Ne.symm hk]

/-- An element with the key of the first group joins it. -/
theorem Groups.join {k : κ} {first : List α} {rest : List (κ × List α)} (h : Groups key l ((k, first) :: rest)) {a : α}
    (hk : key a = k) : Groups key (a :: l) ((k, a :: first) :: rest) where
  increasing := List.pairwise_cons.mpr (List.pairwise_cons.mp h.increasing)
  mem_iff := by
    intro k' group
    have hmem := h.mem_iff k' group
    rw [List.mem_cons, Prod.mk.injEq] at hmem ⊢
    rw [List.exists_mem_cons_iff, List.filter_cons]
    by_cases hk' : k' = k
    · subst hk'
      have hout : (k', group) ∉ rest := fun hrest =>
        lt_irrefl k' ((List.pairwise_cons.mp h.increasing).1 _ hrest)
      have hfirst := ((h.mem_iff k' first).mp List.mem_cons_self).2
      simp [hk, hout, hfirst]
    · have hne : key a ≠ k' := fun heq => hk' (heq.symm.trans hk)
      simp only [hk', false_and, false_or] at hmem ⊢
      simp [hmem, hne]

/-- On a sorted list `groupby` makes one group per key. -/
theorem groups_groupby (hl : l.Pairwise fun a b => key a ≤ key b) : Groups key l (groupby key l) := by
  induction l with
  | nil => exact ⟨List.Pairwise.nil, by simp [groupby]⟩
  | cons a l ih =>
      obtain ⟨hle, hl⟩ := List.pairwise_cons.mp hl
      have h := ih hl
      rw [groupby]
      cases hgroups : groupby key l with
      | nil =>
          rw [hgroups] at h
          exact h.fresh fun b hb => absurd (h.mem_filter hb) List.not_mem_nil
      | cons g rest =>
          obtain ⟨k, first⟩ := g
          rw [hgroups] at h
          by_cases hk : key a = k
          · simp only [hk, if_true]
            exact h.join hk
          · simp only [hk, if_false]
            -- the key of the first group is the smallest of the list, and `a` has another one
            have hfirst : key a < k := by
              obtain ⟨⟨b, hb, hkey⟩, -⟩ := (h.mem_iff k first).mp List.mem_cons_self
              exact lt_of_le_of_ne (hkey ▸ hle b hb) hk
            refine h.fresh fun b hb => ?_
            rcases List.mem_cons.mp (h.mem_filter hb) with heq | hrest
            · rw [(Prod.mk.inj heq).1]
              exact hfirst
            · exact hfirst.trans ((List.pairwise_cons.mp h.increasing).1 _ hrest)

end Groups

/-- The keys under which `groupby` after `sorted` puts a nonempty group, and the groups. -/
theorem mem_groupby_sortedBy [LinearOrder κ] {key : α → κ} {l : List α} {k : κ} {group : List α} :
    (k, group) ∈ groupby key (sortedBy key l) ↔
      (∃ a ∈ l, key a = k) ∧ group = (sortedBy key l).filter fun a => key a = k := by
  rw [(groups_groupby (pairwise_sortedBy key l)).mem_iff]
  simp only [mem_sortedBy]

theorem pairwise_groupby_sortedBy [LinearOrder κ] (key : α → κ) (l : List α) :
    (groupby key (sortedBy key l)).Pairwise fun g h => g.1 < h.1 :=
  (groups_groupby (pairwise_sortedBy key l)).increasing

end OfTestbed.Lib
