import Mathlib.Algebra.BigOperators.Group.List.Basic
import Mathlib.Algebra.GroupWithZero.Nat
import Mathlib.Algebra.Order.BigOperators.Group.List
import Mathlib.Algebra.Order.Group.Nat
import Mathlib.Data.List.Basic

/-!
Worklists. A queue of items is worked off from the front; an item yields some results and puts more items
at the end of the queue. The loop ends when the new items of an item have a smaller rank, and it finds
exactly what its items yield.
-/

namespace OfTestbed.Lib

variable {α β : Type}

/-- `while queue: …`, for as many turns as there is fuel; `none` also stands for an exception. -/
def drain (work : α → Option (List β × List α)) : Nat → List β → List α → Option (List β)
  | _, out, [] => some out
  | 0, _, _ :: _ => none
  | fuel + 1, out, item :: queue => do
      let (found, more) ← work item
      drain work fuel (out ++ found) (queue ++ more)

section

variable {work : α → Option (List β × List α)}

@[simp] theorem drain_nil (fuel : Nat) (out : List β) : drain work fuel out [] = some out := by
  cases fuel <;> rfl

theorem drain_cons {item : α} {found : List β} {more : List α} (hwork : work item = some (found, more))
    (fuel : Nat) (out : List β) (queue : List α) :
    drain work (fuel + 1) out (item :: queue) = drain work fuel (out ++ found) (queue ++ more) := by
  rw [drain, hwork]
  rfl

/-- What every turn preserves holds when the queue is empty. -/
theorem drain_invariant (inv : List β → List α → Prop)
    (hturn : ∀ out item queue found more, inv out (item :: queue) → work item = some (found, more) →
      inv (out ++ found) (queue ++ more))
    {fuel : Nat} {out final : List β} {queue : List α} (hstart : inv out queue)
    (hrun : drain work fuel out queue = some final) : inv final [] := by
  induction fuel generalizing out queue with
  | zero =>
      cases queue with
      | nil =>
          cases hrun
          exact hstart
      | cons item queue => cases hrun
  | succ fuel ih =>
      cases queue with
      | nil =>
          cases hrun
          exact hstart
      | cons item queue =>
          rw [drain, Option.bind_eq_bind, Option.bind_eq_some_iff] at hrun
          obtain ⟨⟨found, more⟩, hwork, hrest⟩ := hrun
          exact ih (hturn out item queue found more hstart hwork) hrest

/-- What an item yields, itself or through the items it puts into the queue. -/
inductive Yields (work : α → Option (List β × List α)) : α → β → Prop
  | now {item found more result} : work item = some (found, more) → result ∈ found → Yields work item result
  | later {item found more next result} : work item = some (found, more) → next ∈ more →
      Yields work next result → Yields work item result

theorem yields_iff {item : α} {found : List β} {more : List α} (hwork : work item = some (found, more))
    {result : β} : Yields work item result ↔ result ∈ found ∨ ∃ next ∈ more, Yields work next result := by
  constructor
  · intro h
    cases h with
    | now hwork' hmem =>
        cases hwork.symm.trans hwork'
        exact Or.inl hmem
    | later hwork' hnext hyields =>
        cases hwork.symm.trans hwork'
        exact Or.inr ⟨_, hnext, hyields⟩
  · rintro (hmem | ⟨next, hnext, hyields⟩)
    · exact .now hwork hmem
    · exact .later hwork hnext hyields

theorem mem_drain_iff {fuel : Nat} {out final : List β} {queue : List α}
    (hrun : drain work fuel out queue = some final) (result : β) :
    result ∈ final ↔ result ∈ out ∨ ∃ item ∈ queue, Yields work item result := by
  have hfinal := drain_invariant (fun out' queue' => (result ∈ out ∨ ∃ item ∈ queue,
      Yields work item result) ↔
    (result ∈ out' ∨ ∃ item ∈ queue', Yields work item result)) ?_ Iff.rfl hrun
  · simpa using hfinal.symm
  · intro out' item queue' found more hinv hwork
    rw [hinv]
    simp only [List.mem_cons, List.mem_append, or_and_right, exists_or, exists_eq_left, yields_iff hwork]
    grind

/-- The sizes in a worklist whose items and results are one larger than the item they come from: the queue is in order,
and so are the results, none of which is more than one larger than an item of the queue. -/
structure InLevels (size : α → Nat) (size' : β → Nat) (out : List β) (queue : List α) : Prop where
  out_sorted : out.Pairwise fun a b => size' a ≤ size' b
  queue_sorted : queue.Pairwise fun a b => size a ≤ size b
  out_le : ∀ a ∈ out, ∀ b ∈ queue, size' a ≤ size b + 1
  queue_le : ∀ a ∈ queue, ∀ b ∈ queue, size a ≤ size b + 1

theorem InLevels.turn {size : α → Nat} {size' : β → Nat} {out found : List β} {item : α} {queue more : List α}
    (h : InLevels size size' out (item :: queue)) (hfound : ∀ result ∈ found, size' result = size item + 1)
    (hmore : ∀ next ∈ more, size next = size item + 1) : InLevels size size' (out ++ found) (queue ++ more) := by
  have hout : ∀ a ∈ out, size' a ≤ size item + 1 := fun a ha => h.out_le a ha item List.mem_cons_self
  have hlarger : ∀ b ∈ queue, size item ≤ size b := (List.pairwise_cons.mp h.queue_sorted).1
  have hqueue : ∀ a ∈ queue, size a ≤ size item + 1 :=
    fun a ha => h.queue_le a (List.mem_cons_of_mem item ha) item List.mem_cons_self
  -- nothing in the queue is smaller than the item was
  have hleast : ∀ b ∈ queue ++ more, size item ≤ size b := by
    intro b hb
    rcases List.mem_append.mp hb with hold | hnew
    · exact hlarger b hold
    · rw [hmore b hnew]
      exact Nat.le_succ _
  refine ⟨?_, ?_, ?_, ?_⟩
  · refine List.pairwise_append.mpr ⟨h.out_sorted, ?_, ?_⟩
    · apply List.pairwise_iff_forall_sublist.mpr
      intro a b hsub
      rw [hfound a (hsub.mem List.mem_cons_self), hfound b (hsub.mem (by simp))]
    · intro a ha b hb
      rw [hfound b hb]
      exact hout a ha
  · refine List.pairwise_append.mpr ⟨(List.pairwise_cons.mp h.queue_sorted).2, ?_, ?_⟩
    · apply List.pairwise_iff_forall_sublist.mpr
      intro a b hsub
      rw [hmore a (hsub.mem List.mem_cons_self), hmore b (hsub.mem (by simp))]
    · intro a ha b hb
      rw [hmore b hb]
      exact hqueue a ha
  · intro a ha b hb
    have hsize := hleast b hb
    rcases List.mem_append.mp ha with hold | hnew
    · have hle := hout a hold
      omega
    · have heq := hfound a hnew
      omega
  · intro a ha b hb
    have hsize := hleast b hb
    rcases List.mem_append.mp ha with hold | hnew
    · have hle := hqueue a hold
      omega
    · have heq := hmore a hnew
      omega

/-- A queue that is worked off from the front finds its results in order of their size. -/
theorem pairwise_drain {size : α → Nat} {size' : β → Nat}
    (hwork : ∀ item found more, work item = some (found, more) →
      (∀ result ∈ found, size' result = size item + 1) ∧ ∀ next ∈ more, size next = size item + 1)
    {fuel : Nat} {start : α} {final : List β} (hrun : drain work fuel [] [start] = some final) :
    final.Pairwise fun a b => size' a ≤ size' b := by
  have hstart : InLevels size size' [] [start] :=
    ⟨List.Pairwise.nil, List.pairwise_singleton _ _, fun a ha => absurd ha List.not_mem_nil, by simp⟩
  exact (drain_invariant (InLevels size size') (fun out item queue found more h hturn =>
    h.turn (hwork item found more hturn).1 (hwork item found more hturn).2) hstart hrun).out_sorted

/-! ### Termination -/

/-- How many turns an item costs, counted down to the given depth. -/
def turns (work : α → Option (List β × List α)) : Nat → α → Nat
  | 0, _ => 1
  | depth + 1, item => 1 + ((work item).elim 0 fun (_, more) => (more.map (turns work depth)).sum)

theorem turns_le_succ (depth : Nat) (item : α) : turns work depth item ≤ turns work (depth + 1) item := by
  induction depth generalizing item with
  | zero => exact Nat.le_add_right 1 _
  | succ depth ih =>
      rw [turns, turns]
      cases work item with
      | none => exact le_rfl
      | some result => exact Nat.add_le_add_left (List.sum_le_sum fun next _ => ih next) 1

theorem turns_mono {depth depth' : Nat} (h : depth ≤ depth') (item : α) :
    turns work depth item ≤ turns work depth' item :=
  monotone_nat_of_le_succ (fun depth => turns_le_succ depth item) h

theorem turns_pos (depth : Nat) (item : α) : 0 < turns work depth item :=
  Nat.lt_of_lt_of_le Nat.one_pos (turns_mono (Nat.zero_le depth) item)

/-- The items that a turn adds cost together less than the item it takes. -/
theorem sum_turns_lt {rank : α → Nat} {item : α} {found : List β} {more : List α}
    (hitem : work item = some (found, more)) (hmore : ∀ next ∈ more, rank next < rank item) :
    (more.map fun next => turns work (rank next) next).sum < turns work (rank item) item := by
  cases hrank : rank item with
  | zero =>
      cases more with
      | nil => exact turns_pos 0 item
      | cons next more =>
          have hnext := hmore next List.mem_cons_self
          omega
  | succ depth =>
      have hsum : (more.map fun next => turns work (rank next) next).sum ≤ (more.map (turns work depth)).sum := by
        refine List.sum_le_sum fun next hnext => turns_mono ?_ next
        have hdrop := hmore next hnext
        omega
      rw [turns, hitem]
      show _ < 1 + (more.map (turns work depth)).sum
      omega

/-- The loop ends, and does so in the same way with any larger amount of fuel. -/
theorem exists_drain {inv : α → Prop} {rank : α → Nat}
    (hwork : ∀ item, inv item → ∃ found more, work item = some (found, more) ∧
      ∀ next ∈ more, inv next ∧ rank next < rank item)
    (out : List β) {queue : List α} (hqueue : ∀ item ∈ queue, inv item) :
    ∃ bound final, ∀ fuel ≥ bound, drain work fuel out queue = some final := by
  suffices h : ∀ cost out queue, (∀ item ∈ queue, inv item) →
      (queue.map fun item => turns work (rank item) item).sum ≤ cost →
        ∃ final, ∀ fuel ≥ cost, drain work fuel out queue = some final from ⟨_, h _ out queue hqueue le_rfl⟩
  intro cost
  induction cost with
  | zero =>
      intro out queue _ hcost
      cases queue with
      | nil => exact ⟨out, fun fuel _ => drain_nil fuel out⟩
      | cons item queue =>
          have hpos : 0 < turns work (rank item) item := turns_pos (rank item) item
          rw [List.map_cons, List.sum_cons] at hcost
          omega
  | succ cost ih =>
      intro out queue hinv hcost
      cases queue with
      | nil => exact ⟨out, fun fuel _ => drain_nil fuel out⟩
      | cons item queue =>
          obtain ⟨found, more, hitem, hmore⟩ := hwork item (hinv item List.mem_cons_self)
          have hless := sum_turns_lt hitem fun next hnext => (hmore next hnext).2
          have hinv' : ∀ next ∈ queue ++ more, inv next := by
            intro next hnext
            rcases List.mem_append.mp hnext with hold | hnew
            · exact hinv next (List.mem_cons_of_mem item hold)
            · exact (hmore next hnew).1
          have hcost' : ((queue ++ more).map fun next => turns work (rank next) next).sum ≤ cost := by
            rw [List.map_append, List.sum_append]
            rw [List.map_cons, List.sum_cons] at hcost
            omega
          obtain ⟨final, hfinal⟩ := ih (out ++ found) (queue ++ more) hinv' hcost'
          refine ⟨final, fun fuel hfuel => ?_⟩
          cases fuel with
          | zero => omega
          | succ fuel =>
              rw [drain_cons hitem]
              exact hfinal fuel (by omega)

end

end OfTestbed.Lib
