import Mathlib.Algebra.Order.Field.Rat
import Mathlib.Data.List.Chain
import Mathlib.Tactic.Linarith
import Mathlib.Data.List.Perm.Subperm

/-!
Cutting a list of events into windows: an event more than `delta` after the first one of the window begins the next
window. The first events of the windows are more than `delta` apart, so that no interval of that length holds two of
them: no fewer intervals contain all events.
-/

namespace OfTestbed.Lib

/-- The time of the first event of a window, and all of them. -/
structure Window (α : Type) where
  start : ℚ
  members : List α

section

variable {α : Type} (time : α → ℚ) (delta : ℚ)

/-- The windows of the events, after some of the first window. -/
def windowsFrom (start : ℚ) (members : List α) : List α → List (Window α)
  | [] => [⟨start, members⟩]
  | a :: rest =>
      if delta < time a - start then ⟨start, members⟩ :: windowsFrom (time a) [a] rest
      else windowsFrom start (members ++ [a]) rest

def windows : List α → List (Window α)
  | [] => []
  | a :: rest => windowsFrom time delta (time a) [a] rest

/-- A window that has its start as time of its first event, and its events within `delta`. -/
structure Window.Proper (window : Window α) : Prop where
  first : ∃ a ∈ window.members, time a = window.start
  within : ∀ a ∈ window.members, window.start ≤ time a ∧ time a ≤ window.start + delta

variable {time delta} {start : ℚ} {members l : List α}

theorem flatMap_windowsFrom : (windowsFrom time delta start members l).flatMap Window.members = members ++ l := by
  induction l generalizing start members with
  | nil => simp [windowsFrom]
  | cons a rest ih =>
      rw [windowsFrom]
      split
      · rw [List.flatMap_cons, ih]
        rfl
      · rw [ih, List.append_assoc]
        rfl

variable (time delta) in
/-- The windows hold the events in their order. -/
theorem flatMap_windows (l : List α) : (windows time delta l).flatMap Window.members = l := by
  cases l with
  | nil => rfl
  | cons a rest => exact flatMap_windowsFrom

theorem windowsFrom_ne_nil : windowsFrom time delta start members l ≠ [] := by
  induction l generalizing start members with
  | nil => exact List.cons_ne_nil _ _
  | cons a rest ih =>
      rw [windowsFrom]
      split
      · exact List.cons_ne_nil _ _
      · exact ih

/-- The first window begins at the first event. -/
theorem head?_windowsFrom : ((windowsFrom time delta start members l).map Window.start).head? = some start := by
  induction l generalizing start members with
  | nil => rfl
  | cons a rest ih =>
      rw [windowsFrom]
      split
      · rfl
      · exact ih

theorem isChain_windowsFrom :
    ((windowsFrom time delta start members l).map Window.start).IsChain fun s t => s + delta < t := by
  induction l generalizing start members with
  | nil => exact List.isChain_singleton _
  | cons a rest ih =>
      rw [windowsFrom]
      split
      · rename_i hfar
        rw [List.map_cons, List.isChain_cons]
        refine ⟨fun t ht => ?_, ih⟩
        rw [head?_windowsFrom, Option.mem_some_iff] at ht
        linarith
      · exact ih

theorem proper_windowsFrom (hdelta : 0 ≤ delta) (hproper : Window.Proper time delta ⟨start, members⟩)
    (hsorted : (start :: l.map time).Pairwise (· ≤ ·)) :
    ∀ window ∈ windowsFrom time delta start members l, window.Proper time delta := by
  induction l generalizing start members with
  | nil =>
      intro window hwindow
      rw [List.mem_singleton.mp hwindow]
      exact hproper
  | cons a rest ih =>
      rw [List.map_cons] at hsorted
      have hle : start ≤ time a := (List.pairwise_cons.mp hsorted).1 _ List.mem_cons_self
      have hrest := (List.pairwise_cons.mp hsorted).2
      rw [windowsFrom]
      split
      · rw [List.forall_mem_cons]
        refine ⟨hproper, ih ⟨⟨a, List.mem_singleton_self a, rfl⟩, fun b hb => ?_⟩ hrest⟩
        rw [List.mem_singleton.mp hb]
        exact ⟨le_rfl, le_add_of_nonneg_right hdelta⟩
      · rename_i hnear
        obtain ⟨first, hfirst, htime⟩ := hproper.first
        refine ih ⟨⟨first, List.mem_append_left _ hfirst, htime⟩, fun b hb => ?_⟩ ?_
        · rcases List.mem_append.mp hb with hold | hnew
          · exact hproper.within b hold
          · rw [List.mem_singleton.mp hnew]
            exact ⟨hle, by linarith⟩
        · rw [List.pairwise_cons] at hsorted ⊢
          exact ⟨fun t ht => hsorted.1 t (List.mem_cons_of_mem _ ht), (List.pairwise_cons.mp hrest).2⟩

theorem proper_windows (hdelta : 0 ≤ delta) (hsorted : (l.map time).Pairwise (· ≤ ·)) :
    ∀ window ∈ windows time delta l, window.Proper time delta := by
  cases l with
  | nil => exact fun window hwindow => absurd hwindow List.not_mem_nil
  | cons a rest =>
      refine proper_windowsFrom hdelta ⟨⟨a, List.mem_singleton_self a, rfl⟩, fun b hb => ?_⟩ hsorted
      rw [List.mem_singleton.mp hb]
      exact ⟨le_rfl, le_add_of_nonneg_right hdelta⟩

variable (time delta) in
/-- The starts are more than `delta` apart, window by window. -/
theorem isChain_windows (l : List α) : ((windows time delta l).map Window.start).IsChain fun s t => s + delta < t := by
  cases l with
  | nil => exact List.isChain_nil
  | cons a rest => exact isChain_windowsFrom

/-- From one start to a later one. -/
theorem start_add_le {starts : List ℚ} (h : starts.IsChain fun s t => s + delta < t) {i k : Nat}
    {s t : ℚ} (hs : starts[i]? = some s) (ht : starts[i + k]? = some t) : s + k * delta ≤ t := by
  induction k generalizing t with
  | zero =>
      rw [Nat.add_zero, hs] at ht
      rw [← Option.some.inj ht]
      simp
  | succ k ih =>
      have hlt : i + (k + 1) < starts.length := (List.getElem?_eq_some_iff.mp ht).1
      have hprev : starts[i + k]? = some starts[i + k] := List.getElem?_eq_getElem (by omega)
      have hstep := List.isChain_iff_getElem.mp h (i + k) (by omega)
      have hlast : starts[i + k + 1] = t := (List.getElem?_eq_some_iff.mp ht).2
      have hbefore := ih hprev
      rw [hlast] at hstep
      push_cast
      linarith

theorem pairwise_starts (hdelta : 0 ≤ delta) {starts : List ℚ} (h : starts.IsChain fun s t => s + delta < t) :
    starts.Pairwise fun s t => s + delta < t := by
  have htrans : Trans (fun s t : ℚ => s + delta < t) (fun s t => s + delta < t) (fun s t => s + delta < t) :=
    ⟨fun {s t u} hst htu => by linarith⟩
  exact List.isChain_iff_pairwise.mp h

end

/-- Intervals of length `delta` from the given points contain all events. -/
def Covers {α : Type} (time : α → ℚ) (delta : ℚ) (points : List ℚ) (l : List α) : Prop :=
  ∀ a ∈ l, ∃ p ∈ points, p ≤ time a ∧ time a ≤ p + delta

section

variable {α : Type} {time : α → ℚ} {delta : ℚ} {l : List α}

/-- The windows contain all events. -/
theorem covers_windows (hdelta : 0 ≤ delta) (hsorted : (l.map time).Pairwise (· ≤ ·)) :
    Covers time delta ((windows time delta l).map Window.start) l := by
  intro a ha
  rw [← flatMap_windows time delta l] at ha
  obtain ⟨window, hwindow, ha⟩ := List.mem_flatMap.mp ha
  exact ⟨window.start, List.mem_map_of_mem hwindow, (proper_windows hdelta hsorted window hwindow).within a ha⟩

/-- No fewer intervals do. -/
theorem length_windows_le (hdelta : 0 ≤ delta) (hsorted : (l.map time).Pairwise (· ≤ ·)) {points : List ℚ}
    (h : Covers time delta points l) : (windows time delta l).length ≤ points.length := by
  have hpoint : ∀ s ∈ (windows time delta l).map Window.start, ∃ p ∈ points, p ≤ s ∧ s ≤ p + delta := by
    intro s hs
    obtain ⟨window, hwindow, rfl⟩ := List.mem_map.mp hs
    obtain ⟨a, ha, htime⟩ := (proper_windows hdelta hsorted window hwindow).first
    have hmem : a ∈ l := by
      rw [← flatMap_windows time delta l]
      exact List.mem_flatMap.mpr ⟨window, hwindow, ha⟩
    rw [← htime]
    exact h a hmem
  choose! point hmem hwithin using hpoint
  -- two starts are too far apart to lie in one interval
  have hpairwise : ((windows time delta l).map Window.start).Pairwise fun s t => point s ≠ point t := by
    have hstarts := pairwise_starts hdelta (isChain_windows time delta l)
    refine hstarts.imp_of_mem fun {s t} hs ht hfar heq => ?_
    have hs := (hwithin s hs).1
    have ht := (hwithin t ht).2
    rw [← heq] at ht
    linarith
  have hnodup : (((windows time delta l).map Window.start).map point).Nodup := List.pairwise_map.mpr hpairwise
  have hsubset : ((windows time delta l).map Window.start).map point ⊆ points := by
    intro p hp
    obtain ⟨s, hs, rfl⟩ := List.mem_map.mp hp
    exact hmem s hs
  have hle := (List.subperm_of_subset hnodup hsubset).length_le
  rwa [List.length_map, List.length_map] at hle

/-- Events in different windows are as far apart as the windows between them are long. -/
theorem time_add_lt (hdelta : 0 ≤ delta) (hsorted : (l.map time).Pairwise (· ≤ ·)) {i k : Nat}
    {window window' : Window α} (h : (windows time delta l)[i]? = some window)
    (h' : (windows time delta l)[i + k + 1]? = some window') {a b : α} (ha : a ∈ window.members)
    (hb : b ∈ window'.members) : time a + k * delta < time b := by
  have hproper := proper_windows hdelta hsorted
  have hwithin := (hproper window (List.mem_of_getElem? h)).within a ha
  have hwithin' := (hproper window' (List.mem_of_getElem? h')).within b hb
  have hlt := (List.getElem?_eq_some_iff.mp h').1
  have hnext : (windows time delta l)[i + 1]? = some (windows time delta l)[i + 1] :=
    List.getElem?_eq_getElem (by omega)
  have hstart : ∀ {j : Nat} {w : Window α}, (windows time delta l)[j]? = some w →
      ((windows time delta l).map Window.start)[j]? = some w.start := by
    intro j w hw
    rw [List.getElem?_map, hw]
    rfl
  have hstarts := isChain_windows time delta l
  have hone := List.isChain_iff_getElem.mp hstarts i (by rw [List.length_map]; omega)
  simp only [List.getElem_map] at hone
  rw [(List.getElem?_eq_some_iff.mp h).2] at hone
  have hall : (windows time delta l)[i + 1].start + k * delta ≤ window'.start := by
    apply start_add_le hstarts (hstart hnext)
    rw [show i + 1 + k = i + k + 1 by omega]
    exact hstart h'
  linarith

end

end OfTestbed.Lib
