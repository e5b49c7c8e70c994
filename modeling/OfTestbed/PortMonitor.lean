import Mathlib.Logic.Relation
import OfTestbed.LibTable
import OfTestbed.LibText

/-!
The monitor that counts the packets of the switches' ports: `MPStatMonitor` of `mp_routing/multipath_orchestrator.py`
and the responses that it reads (`nw_control/of_rest_client.py`). `start_monitor` sets a timer, and the timer's thread
polls all switches, appends what they say to the lists, port by port, and sets the next timer, until it finds that
`stop_monitor` has set the event, which it then clears. The threads run side by side; a thread whose request fails ends
without setting a timer or clearing the event. What the controller answers is arbitrary.
-/

namespace OfTestbed.PortMonitor

open Lib

/-! ### Polls -/

/-- `port_desc['port_no']`, a number or a name such as `LOCAL`. -/
inductive PortNo where
  | number (n : Int)
  | text (name : Text)

/-- `int(port_desc['port_no'])`. -/
def PortNo.int : PortNo → Option Int
  | .number n => some n
  | .text name => Lib.int name

structure PortDesc where
  portNo : PortNo
  rxPackets : Int
  txPackets : Int

/-- `OFPortStatsResponse.resp`. -/
abbrev PortStatsResponse := Dict Text (List PortDesc)

def buildPortDict (resp : PortStatsResponse) (fieldAccessor : PortDesc → Int) : Option (Dict Int Int) :=
  resp.entries.foldlM (fun ret entry => entry.2.foldlM (fun (ret : Dict Int Int) portDesc => do
    let portNo ← portDesc.portNo.int
    return ret.set portNo (fieldAccessor portDesc)) ret) .empty

def getTxPackets (resp : PortStatsResponse) : Option (Dict Int Int) := buildPortDict resp PortDesc.txPackets

def getRxPackets (resp : PortStatsResponse) : Option (Dict Int Int) := buildPortDict resp PortDesc.rxPackets

/-- The two dictionaries of the monitor. -/
structure StatLists where
  rxStatsList : Dict (Int × Int) (List Int)
  txStatsList : Dict (Int × Int) (List Int)

def StatLists.empty : StatLists := ⟨.empty, .empty⟩

inductive Direction where
  | rx
  | tx
  deriving DecidableEq

/-- What is appended to the list of a port. -/
structure Sample where
  direction : Direction
  port : Int × Int
  count : Int
  deriving DecidableEq

def StatLists.append (lists : StatLists) (sample : Sample) : StatLists :=
  match sample.direction with
  | .rx => { lists with rxStatsList := lists.rxStatsList.push sample.port sample.count }
  | .tx => { lists with txStatsList := lists.txStatsList.push sample.port sample.count }

/-- What a turn of the loop of `_update_stat_lists` appends when the switch has answered. -/
def samplesOf (dpid : Int) (resp : PortStatsResponse) : Option (List Sample) := do
  let txPkts ← getTxPackets resp
  let rxPkts ← getRxPackets resp
  return txPkts.entries.map (fun e => ⟨.tx, (dpid, e.1), e.2⟩) ++ rxPkts.entries.map (fun e => ⟨.rx, (dpid, e.1), e.2⟩)

/-! ### Threads -/

/-- Where the thread of a timer is. -/
inductive Timer where
  /-- the timer has not fired yet -/
  | waiting
  /-- `_update_stat_lists`: the switches that are still to be asked, and what is still to be appended for the last -/
  | polling (dpids : List Int) (pending : List Sample)
  /-- the lists are updated -/
  | checking
  /-- the event was found set -/
  | clearing
  /-- a request has failed -/
  | failed
  deriving DecidableEq

/-- The lists and the event of the monitor, its timers, and whether a call of `stop_monitor` waits for the event to be
cleared; and what has happened so far: the answers of the switches in their order, the calls of `start_monitor`, and
those of `stop_monitor` that have returned. -/
structure State where
  lists : StatLists
  stopEvent : Bool
  timers : List Timer
  stopping : Bool
  answered : List (Int × PortStatsResponse)
  started : Nat
  stopped : Nat

/-- A step of the thread that uses the monitor, or of a timer's thread. -/
inductive Step (monDpids : List Int) (state : State) : State → Prop where
  | startMonitor (free : state.stopping = false) :
      Step monDpids state { state with timers := state.timers ++ [.waiting], started := state.started + 1 }
  | stopMonitor (free : state.stopping = false) :
      Step monDpids state { state with stopping := true, stopEvent := true }
  | stopReturns (waits : state.stopping = true) (cleared : state.stopEvent = false) :
      Step monDpids state { state with stopping := false, stopped := state.stopped + 1 }
  | fire {before after : List Timer} (next : state.timers = before ++ .waiting :: after) :
      Step monDpids state { state with timers := before ++ .polling monDpids [] :: after }
  | answer {before after : List Timer} {dpid : Int} {dpids : List Int} {resp : PortStatsResponse}
      {samples : List Sample} (next : state.timers = before ++ .polling (dpid :: dpids) [] :: after)
      (read : samplesOf dpid resp = some samples) :
      Step monDpids state { state with
        timers := before ++ .polling dpids samples :: after
        answered := state.answered ++ [(dpid, resp)] }
  | fail {before after : List Timer} {dpid : Int} {dpids : List Int}
      (next : state.timers = before ++ .polling (dpid :: dpids) [] :: after) :
      Step monDpids state { state with timers := before ++ .failed :: after }
  | append {before after : List Timer} {dpids : List Int} {sample : Sample} {pending : List Sample}
      (next : state.timers = before ++ .polling dpids (sample :: pending) :: after) :
      Step monDpids state { state with
        lists := state.lists.append sample
        timers := before ++ .polling dpids pending :: after }
  | polled {before after : List Timer} (next : state.timers = before ++ .polling [] [] :: after) :
      Step monDpids state { state with timers := before ++ .checking :: after }
  | again {before after : List Timer} (next : state.timers = before ++ .checking :: after)
      (unset : state.stopEvent = false) : Step monDpids state { state with timers := before ++ .waiting :: after }
  | stopSeen {before after : List Timer} (next : state.timers = before ++ .checking :: after)
      (found : state.stopEvent = true) : Step monDpids state { state with timers := before ++ .clearing :: after }
  | clear {before after : List Timer} (next : state.timers = before ++ .clearing :: after) :
      Step monDpids state { state with stopEvent := false, timers := before ++ after }

/-- `_update_stat_lists`, run without an interruption on the answers of the switches. -/
def updateStatLists (lists : StatLists) (answers : List (Int × PortStatsResponse)) : Option StatLists :=
  answers.foldlM (fun lists answer => do
    let samples ← samplesOf answer.1 answer.2
    return samples.foldl StatLists.append lists) lists

/-- A monitor when its constructor has returned, which has polled the switches once. -/
inductive Constructed (monDpids : List Int) : State → Prop where
  | mk {answers : List (Int × PortStatsResponse)} {lists : StatLists} (asked : answers.map Prod.fst = monDpids)
      (polled : updateStatLists .empty answers = some lists) :
      Constructed monDpids ⟨lists, false, [], false, answers, 0, 0⟩

/-- The states in all runs, with any calls and any interleaving. -/
def Reachable (monDpids : List Int) (state : State) : Prop :=
  ∃ initial, Constructed monDpids initial ∧ Relation.ReflTransGen (Step monDpids) initial state

/-! ### Stopping -/

section Stopping

variable {monDpids : List Int} {state later : State}

/-- The event has been cleared for a call of `stop_monitor` that has not returned yet. -/
def State.released (state : State) : Nat := if state.stopping = true ∧ state.stopEvent = false then 1 else 0

/-- Every call of `stop_monitor` that returns has ended a timer. -/
theorem Step.counts (h : Step monDpids state later)
    (hle : state.stopped + state.timers.length + state.released ≤ state.started) :
    later.stopped + later.timers.length + later.released ≤ later.started := by
  unfold State.released at *
  cases h with
  | startMonitor free =>
      simp only [free, List.length_append, List.length_singleton] at hle ⊢
      simp at hle ⊢
      omega
  | stopMonitor free =>
      simp [free] at hle ⊢
      omega
  | stopReturns waits cleared =>
      simp [waits, cleared] at hle ⊢
      omega
  | clear next =>
      rw [next] at hle
      simp only [List.length_append, List.length_cons] at hle ⊢
      split_ifs at hle ⊢ <;> omega
  | fire next | answer next | fail next | append next | polled next | again next | stopSeen next =>
      rw [next] at hle
      simpa using hle

theorem Reachable.counts (h : Reachable monDpids state) :
    state.stopped + state.timers.length + state.released ≤ state.started := by
  obtain ⟨initial, hinitial, hrun⟩ := h
  induction hrun with
  | refl =>
      cases hinitial
      exact Nat.le_refl _
  | tail _ hstep ih => exact hstep.counts ih

theorem Step.started_le (h : Step monDpids state later) : state.started ≤ later.started := by
  cases h with
  | startMonitor => exact Nat.le_succ _
  | _ => exact Nat.le_refl _

/-- Without a timer only `start_monitor` brings one. -/
theorem Step.still (h : Step monDpids state later) (htimers : state.timers = [])
    (hstarted : later.started = state.started) :
    later.timers = [] ∧ later.lists = state.lists ∧ later.answered = state.answered := by
  cases h with
  | startMonitor => exact absurd hstarted (Nat.succ_ne_self _)
  | stopMonitor => exact ⟨htimers, rfl, rfl⟩
  | stopReturns => exact ⟨htimers, rfl, rfl⟩
  | fire next | answer next | fail next | append next | polled next | again next | stopSeen next | clear next =>
      rw [htimers] at next
      simp at next

theorem still_of_run (hrun : Relation.ReflTransGen (Step monDpids) state later) (htimers : state.timers = []) :
    state.started ≤ later.started ∧ (later.started = state.started →
      later.timers = [] ∧ later.lists = state.lists ∧ later.answered = state.answered) := by
  induction hrun with
  | refl => exact ⟨Nat.le_refl _, fun _ => ⟨htimers, rfl, rfl⟩⟩
  | tail _ hstep ih =>
      refine ⟨ih.1.trans hstep.started_le, fun heq => ?_⟩
      have hsame := Nat.le_antisymm (heq ▸ hstep.started_le) ih.1
      obtain ⟨hnone, hlists, hanswered⟩ := ih.2 hsame
      obtain ⟨hnone', hlists', hanswered'⟩ := hstep.still hnone (heq.trans hsame.symm)
      exact ⟨hnone', hlists'.trans hlists, hanswered'.trans hanswered⟩

/-- What appending leaves to do can be done. -/
theorem exists_appended {before after : List Timer} {dpids : List Int} {pending : List Sample}
    (h : state.timers = before ++ .polling dpids pending :: after) :
    ∃ lists, Relation.ReflTransGen (Step monDpids) state
      { state with lists := lists, timers := before ++ .polling dpids [] :: after } := by
  induction pending generalizing state with
  | nil => exact ⟨state.lists, by rw [← h]⟩
  | cons sample pending ih =>
      obtain ⟨lists, hrun⟩ := @ih { state with
        lists := state.lists.append sample
        timers := before ++ .polling dpids pending :: after } rfl
      exact ⟨lists, Relation.ReflTransGen.head (.append h) hrun⟩

theorem exists_polled {before after : List Timer} {dpids : List Int} {pending : List Sample}
    (h : state.timers = before ++ .polling dpids pending :: after) :
    ∃ lists answered, Relation.ReflTransGen (Step monDpids) state
      { state with lists := lists, timers := before ++ .checking :: after, answered := answered } := by
  induction dpids generalizing state pending with
  | nil =>
      obtain ⟨lists, hrun⟩ := @exists_appended monDpids _ _ _ _ _ h
      exact ⟨lists, state.answered, hrun.tail (.polled rfl)⟩
  | cons dpid dpids ih =>
      obtain ⟨lists, hrun⟩ := @exists_appended monDpids _ _ _ _ _ h
      -- the switch may answer that it has no ports
      have hstep : Step monDpids { state with lists := lists, timers := before ++ .polling (dpid :: dpids) [] :: after }
          { state with
            lists := lists
            timers := before ++ .polling dpids [] :: after
            answered := state.answered ++ [(dpid, .empty)] } := .answer rfl rfl
      obtain ⟨lists', answered, hrest⟩ := @ih { state with
        lists := lists
        timers := before ++ .polling dpids [] :: after
        answered := state.answered ++ [(dpid, .empty)] } [] rfl
      exact ⟨lists', answered, (hrun.tail hstep).trans hrest⟩

/-- A thread at the end of its poll clears an event that is set. -/
theorem exists_cleared {before after : List Timer} (h : state.timers = before ++ .checking :: after)
    (hset : state.stopEvent = true) :
    Relation.ReflTransGen (Step monDpids) state { state with stopEvent := false, timers := before ++ after } := by
  have hseen : Step monDpids state { state with timers := before ++ .clearing :: after } := .stopSeen h hset
  exact Relation.ReflTransGen.head hseen (Relation.ReflTransGen.single (.clear rfl))

/-- A thread that has not failed releases a call of `stop_monitor`. -/
theorem exists_released {timer : Timer} (hmem : timer ∈ state.timers) (hne : timer ≠ .failed)
    (hset : state.stopEvent = true) :
    ∃ later, Relation.ReflTransGen (Step monDpids) state later ∧ later.stopping = state.stopping ∧
      later.stopped = state.stopped ∧ later.stopEvent = false := by
  obtain ⟨before, after, htimers⟩ := List.append_of_mem hmem
  have hpolling : ∀ {state : State} {dpids pending}, state.timers = before ++ .polling dpids pending :: after →
      state.stopEvent = true → ∃ later, Relation.ReflTransGen (Step monDpids) state later ∧
        later.stopping = state.stopping ∧ later.stopped = state.stopped ∧ later.stopEvent = false := by
    intro state dpids pending hat hset
    obtain ⟨lists, answered, hrun⟩ := @exists_polled monDpids _ _ _ _ _ hat
    exact ⟨_, hrun.trans (exists_cleared rfl hset), rfl, rfl, rfl⟩
  cases timer with
  | waiting =>
      obtain ⟨later, hrun, hlater⟩ := @hpolling { state with timers := before ++ .polling monDpids [] :: after }
        monDpids [] rfl hset
      exact ⟨later, Relation.ReflTransGen.head (.fire htimers) hrun, hlater⟩
  | polling dpids pending => exact hpolling htimers hset
  | checking => exact ⟨_, exists_cleared htimers hset, rfl, rfl, rfl⟩
  | clearing => exact ⟨_, Relation.ReflTransGen.single (.clear htimers), rfl, rfl, rfl⟩
  | failed => exact absurd rfl hne

/-- When all threads have failed, nothing clears the event any more. -/
theorem not_step_of_failed (hstopping : state.stopping = true) (hset : state.stopEvent = true)
    (hfailed : ∀ timer ∈ state.timers, timer = .failed) : ¬Step monDpids state later := by
  intro hstep
  cases hstep with
  | startMonitor free | stopMonitor free => simp [hstopping] at free
  | stopReturns waits cleared => simp [hset] at cleared
  | fire next | answer next | fail next | append next | polled next | again next | stopSeen next | clear next =>
      have hthis := hfailed _ (next ▸ List.mem_append_right _ List.mem_cons_self)
      simp at hthis

end Stopping

/-- With any calls and in any interleaving: when as many calls of `stop_monitor` have returned as `start_monitor` was
called, no timer is left, and until the next start the lists stay as they are. A call that waits can return exactly when
the event has been cleared already or one of the threads has not failed. -/
theorem stop_monitor_stops (monDpids : List Int) (state : State) (h : Reachable monDpids state) :
    (state.stopped = state.started → state.timers = [] ∧
      ∀ later, Relation.ReflTransGen (Step monDpids) state later → later.started = state.started →
        later.lists = state.lists ∧ later.answered = state.answered) ∧
    (state.stopping = true →
      ((∃ later, Relation.ReflTransGen (Step monDpids) state later ∧ later.stopped = state.stopped + 1) ↔
        state.stopEvent = false ∨ ∃ timer ∈ state.timers, timer ≠ .failed)) := by
  constructor
  · intro heq
    have hcounts := h.counts
    have htimers : state.timers = [] := List.length_eq_zero_iff.mp (by omega)
    exact ⟨htimers, fun later hrun hstarted => ((still_of_run hrun htimers).2 hstarted).2⟩
  · intro hstopping
    constructor
    · rintro ⟨later, hrun, hstopped⟩
      by_contra hnever
      rw [not_or, Bool.not_eq_false] at hnever
      have hfailed : ∀ timer ∈ state.timers, timer = .failed := by
        intro timer hmem
        by_contra hne
        exact hnever.2 ⟨timer, hmem, hne⟩
      obtain rfl | ⟨next, hstep, -⟩ := Relation.ReflTransGen.cases_head hrun
      · exact Nat.succ_ne_self _ hstopped.symm
      · exact not_step_of_failed hstopping hnever.1 hfailed hstep
    · intro hcan
      have hreleased : ∃ later, Relation.ReflTransGen (Step monDpids) state later ∧ later.stopping = state.stopping ∧
          later.stopped = state.stopped ∧ later.stopEvent = false := by
        cases hevent : state.stopEvent with
        | false => exact ⟨state, .refl, rfl, rfl, hevent⟩
        | true =>
            obtain hcleared | ⟨timer, hmem, hne⟩ := hcan
            · rw [hevent] at hcleared
              cases hcleared
            · exact exists_released hmem hne hevent
      obtain ⟨later, hrun, hsame, hstopped, hcleared⟩ := hreleased
      exact ⟨_, hrun.tail (.stopReturns (hsame.trans hstopping) hcleared), congrArg (· + 1) hstopped⟩

/-- The monitor of one switch without ports, whose second answer does not come before it is to be stopped. -/
def unanswered : State := ⟨.empty, true, [.failed], true, [(1, .empty)], 1, 0⟩

theorem reachable_unanswered : Reachable [1] unanswered := by
  refine ⟨⟨.empty, false, [], false, [(1, .empty)], 0, 0⟩, .mk rfl rfl, ?_⟩
  have hstart : Step [1] ⟨.empty, false, [], false, [(1, .empty)], 0, 0⟩
      ⟨.empty, false, [.waiting], false, [(1, .empty)], 1, 0⟩ := .startMonitor rfl
  have hfire : Step [1] ⟨.empty, false, [.waiting], false, [(1, .empty)], 1, 0⟩
      ⟨.empty, false, [.polling [1] []], false, [(1, .empty)], 1, 0⟩ := @Step.fire [1] _ [] [] rfl
  have hfail : Step [1] ⟨.empty, false, [.polling [1] []], false, [(1, .empty)], 1, 0⟩
      ⟨.empty, false, [.failed], false, [(1, .empty)], 1, 0⟩ := @Step.fail [1] _ [] [] 1 [] rfl
  have hstop : Step [1] ⟨.empty, false, [.failed], false, [(1, .empty)], 1, 0⟩ unanswered := .stopMonitor rfl
  exact .head hstart (.head hfire (.head hfail (.single hstop)))

/-- It waits forever. -/
theorem stop_monitor_stops_unanswered : unanswered.stopping = true ∧
    ¬∃ later, Relation.ReflTransGen (Step [1]) unanswered later ∧ later.stopped = unanswered.stopped + 1 := by
  refine ⟨rfl, fun hreturns => ?_⟩
  have hcan := ((stop_monitor_stops [1] unanswered reachable_unanswered).2 rfl).mp hreturns
  revert hcan
  decide

/-! ### The lists of a monitor that is stopped -/

/-- A step of a program that starts the monitor only when it is stopped. -/
def Managed (monDpids : List Int) (state later : State) : Prop :=
  Step monDpids state later ∧ (state.started < later.started → state.stopped = state.started)

/-- The states in the runs of such a program. -/
def ManagedReachable (monDpids : List Int) (state : State) : Prop :=
  ∃ initial, Constructed monDpids initial ∧ Relation.ReflTransGen (Managed monDpids) initial state

/-- What the thread has read and not yet appended. -/
def Timer.pending : Timer → List Sample
  | .polling _ pending => pending
  | _ => []

/-- The switches that the thread is still to ask. -/
def Timer.remaining : Timer → List Int
  | .polling dpids _ => dpids
  | _ => []

/-- What holds as long as no request has failed: the answers are those of whole rounds up to what a thread has still to
ask, and the lists are made of the answers up to what it has still to append. -/
structure Rounds (monDpids : List Int) (state : State) (rounds : Nat) : Prop where
  asked : state.answered.map Prod.fst ++ state.timers.flatMap Timer.remaining = (List.replicate rounds monDpids).flatten
  polled : updateStatLists .empty state.answered =
    some ((state.timers.flatMap Timer.pending).foldl StatLists.append state.lists)
  started_lt : state.started + 1 ≤ rounds + state.timers.count .waiting

section Managed

variable {monDpids : List Int} {state later : State}

theorem ManagedReachable.reachable (h : ManagedReachable monDpids state) : Reachable monDpids state := by
  obtain ⟨initial, hinitial, hrun⟩ := h
  have hsteps : Managed monDpids ≤ Step monDpids := fun _ _ hstep => hstep.1
  exact ⟨initial, hinitial, Relation.ReflTransGen.mono hsteps _ _ hrun⟩

theorem eq_singleton_of_length_le {timers before after : List Timer} {timer : Timer} (hle : timers.length ≤ 1)
    (h : timers = before ++ timer :: after) : timers = [timer] ∧ before = [] ∧ after = [] := by
  subst h
  simp only [List.length_append, List.length_cons] at hle
  obtain rfl := List.length_eq_zero_iff.mp (show before.length = 0 by omega)
  obtain rfl := List.length_eq_zero_iff.mp (show after.length = 0 by omega)
  exact ⟨rfl, rfl, rfl⟩

theorem updateStatLists_concat {answers : List (Int × PortStatsResponse)} {answer : Int × PortStatsResponse}
    {lists : StatLists} : updateStatLists .empty (answers ++ [answer]) = some lists ↔ ∃ before samples,
      updateStatLists .empty answers = some before ∧ samplesOf answer.1 answer.2 = some samples ∧
        samples.foldl StatLists.append before = lists := by
  rw [updateStatLists, List.foldlM_append, Option.bind_eq_bind, Option.bind_eq_some_iff]
  simp only [List.foldlM_cons, List.foldlM_nil, Option.bind_eq_bind, Option.pure_def, Option.bind_eq_some_iff,
    Option.some_inj]
  constructor
  · rintro ⟨before, hbefore, _, ⟨samples, hsamples, rfl⟩, rfl⟩
    exact ⟨before, samples, hbefore, hsamples, rfl⟩
  · rintro ⟨before, samples, hbefore, hsamples, rfl⟩
    exact ⟨before, hbefore, _, ⟨samples, hsamples, rfl⟩, rfl⟩

/-- At most one timer at a time. -/
theorem Managed.length_le (hreach : Reachable monDpids state) (h : Managed monDpids state later)
    (hle : state.timers.length ≤ 1) : later.timers.length ≤ 1 := by
  obtain ⟨hstep, hmanaged⟩ := h
  cases hstep with
  | startMonitor =>
      have hcounts := hreach.counts
      have hstopped := hmanaged (Nat.lt_succ_self _)
      simp only [List.length_append, List.length_singleton]
      omega
  | stopMonitor | stopReturns => exact hle
  | fire next | answer next | fail next | append next | polled next | again next | stopSeen next | clear next =>
      obtain ⟨-, rfl, rfl⟩ := eq_singleton_of_length_le hle next
      simp

/-- A failed thread stays. -/
theorem Managed.failed_mem (h : Managed monDpids state later) (hle : state.timers.length ≤ 1)
    (hmem : Timer.failed ∈ state.timers) : Timer.failed ∈ later.timers := by
  obtain ⟨hstep, -⟩ := h
  cases hstep with
  | startMonitor => exact List.mem_append_left _ hmem
  | stopMonitor | stopReturns => exact hmem
  | fire next | answer next | fail next | append next | polled next | again next | stopSeen next | clear next =>
      obtain ⟨hone, -, -⟩ := eq_singleton_of_length_le hle next
      rw [hone, List.mem_singleton] at hmem
      cases hmem

theorem Managed.rounds (hreach : Reachable monDpids state) (h : Managed monDpids state later)
    (hle : state.timers.length ≤ 1) {rounds : Nat} (hrounds : Rounds monDpids state rounds) :
    Timer.failed ∈ later.timers ∨ ∃ rounds', Rounds monDpids later rounds' := by
  obtain ⟨hstep, hmanaged⟩ := h
  obtain ⟨hasked, hpolled, hstarted⟩ := hrounds
  cases hstep with
  | startMonitor =>
      have hcounts := hreach.counts
      have hstopped := hmanaged (Nat.lt_succ_self _)
      have hnone : state.timers = [] := List.length_eq_zero_iff.mp (by omega)
      simp only [hnone] at hasked hpolled hstarted
      refine Or.inr ⟨rounds, ?_, ?_, ?_⟩
      · simpa [hnone, Timer.remaining] using hasked
      · simpa [hnone, Timer.pending] using hpolled
      · simpa [hnone] using hstarted
  | stopMonitor => exact Or.inr ⟨rounds, hasked, hpolled, hstarted⟩
  | stopReturns => exact Or.inr ⟨rounds, hasked, hpolled, hstarted⟩
  | fire next =>
      obtain ⟨hone, rfl, rfl⟩ := eq_singleton_of_length_le hle next
      simp only [hone] at hasked hpolled hstarted
      refine Or.inr ⟨rounds + 1, ?_, ?_, ?_⟩
      · -- one more round has begun
        rw [List.replicate_succ', List.flatten_append, ← hasked]
        simp [Timer.remaining]
      · simpa [Timer.pending] using hpolled
      · simpa using hstarted
  | answer next read =>
      obtain ⟨hone, rfl, rfl⟩ := eq_singleton_of_length_le hle next
      simp only [hone] at hasked hpolled hstarted
      refine Or.inr ⟨rounds, ?_, ?_, ?_⟩
      · simpa [Timer.remaining] using hasked
      · have hbefore : updateStatLists .empty state.answered = some state.lists := by
          simpa [Timer.pending] using hpolled
        simpa [Timer.pending] using updateStatLists_concat.mpr ⟨_, _, hbefore, read, rfl⟩
      · simpa using hstarted
  | fail next =>
      obtain ⟨-, rfl, rfl⟩ := eq_singleton_of_length_le hle next
      exact Or.inl (by simp)
  | append next | polled next | stopSeen next | again next | clear next =>
      obtain ⟨hone, rfl, rfl⟩ := eq_singleton_of_length_le hle next
      simp only [hone] at hasked hpolled hstarted
      refine Or.inr ⟨rounds, ?_, ?_, ?_⟩
      · simpa [Timer.remaining] using hasked
      · simpa [Timer.pending] using hpolled
      · simp at hstarted ⊢
        omega

theorem ManagedReachable.rounds (h : ManagedReachable monDpids state) :
    state.timers.length ≤ 1 ∧ (Timer.failed ∈ state.timers ∨ ∃ rounds, Rounds monDpids state rounds) := by
  obtain ⟨initial, hinitial, hrun⟩ := h
  induction hrun with
  | refl =>
      cases hinitial with
      | mk asked polled =>
          refine ⟨Nat.zero_le _, Or.inr ⟨1, ?_, polled, Nat.le_refl _⟩⟩
          simpa using asked
  | tail hrun hstep ih =>
      have hreach := ManagedReachable.reachable ⟨initial, hinitial, hrun⟩
      obtain ⟨hle, hfailed | ⟨rounds, hrounds⟩⟩ := ih
      · exact ⟨hstep.length_le hreach hle, Or.inl (hstep.failed_mem hle hfailed)⟩
      · exact ⟨hstep.length_le hreach hle, hstep.rounds hreach hle hrounds⟩

/-- When the monitor is stopped, its lists are those of whole rounds, one for each start at least. -/
theorem ManagedReachable.lists_eq (h : ManagedReachable monDpids state) (hstopped : state.stopped = state.started) :
    updateStatLists .empty state.answered = some state.lists ∧ ∃ rounds ≥ state.started + 1,
      state.answered.map Prod.fst = (List.replicate rounds monDpids).flatten := by
  have hcounts := h.reachable.counts
  have hnone : state.timers = [] := List.length_eq_zero_iff.mp (by omega)
  obtain ⟨-, hfailed | ⟨rounds, hasked, hpolled, hstarted⟩⟩ := h.rounds
  · simp [hnone] at hfailed
  · simp only [hnone] at hasked hpolled hstarted
    refine ⟨by simpa using hpolled, rounds, by simpa using hstarted, by simpa using hasked⟩

end Managed

/-! ### What the lists hold -/

/-- The packets that the switch reported for the port, answer by answer. -/
def reported (getPackets : PortStatsResponse → Option (Dict Int Int)) (answered : List (Int × PortStatsResponse))
    (port : Int × Int) : List Int :=
  (answered.filter (·.1 = port.1)).filterMap fun answer => (getPackets answer.2).bind (·.get? port.2)

/-- The list of a port, empty if there is none. -/
def listOf (stats : Dict (Int × Int) (List Int)) (port : Int × Int) : List Int := (stats.get? port).getD []

theorem listOf_push (stats : Dict (Int × Int) (List Int)) (port port' : Int × Int) (count : Int) :
    listOf (stats.push port count) port' = listOf stats port' ++ if port = port' then [count] else [] := by
  rw [listOf, Dict.push, Dict.get?_set]
  by_cases heq : port' = port
  · rw [if_pos heq, if_pos heq.symm, heq]
    rfl
  · rw [if_neg heq, if_neg (Ne.symm heq), List.append_nil]
    rfl

theorem listOf_foldl_append (samples : List Sample) (lists : StatLists) (port : Int × Int) :
    listOf (samples.foldl StatLists.append lists).txStatsList port = listOf lists.txStatsList port ++
      (samples.filter fun sample => sample.direction = .tx ∧ sample.port = port).map Sample.count := by
  induction samples generalizing lists with
  | nil => simp
  | cons sample samples ih =>
      rw [List.foldl_cons, ih, StatLists.append]
      cases hdirection : sample.direction with
      | rx => simp [hdirection]
      | tx =>
          rw [listOf_push]
          by_cases hport : sample.port = port <;> simp [hdirection, hport]

theorem counts_of_samplesOf {dpid : Int} {resp : PortStatsResponse} {samples : List Sample}
    (h : samplesOf dpid resp = some samples) (port : Int × Int) :
    (samples.filter fun sample => sample.direction = .tx ∧ sample.port = port).map Sample.count =
      if dpid = port.1 then ((getTxPackets resp).bind (·.get? port.2)).toList else [] := by
  simp only [samplesOf, Option.bind_eq_bind, Option.bind_eq_some_iff, Option.pure_def, Option.some_inj] at h
  obtain ⟨txPkts, htx, rxPkts, -, rfl⟩ := h
  have hrx : (rxPkts.entries.map fun e => (⟨.rx, (dpid, e.1), e.2⟩ : Sample)).filter (fun sample =>
      sample.direction = .tx ∧ sample.port = port) = [] := by
    simp [List.filter_map, Function.comp_def]
  rw [List.filter_append, hrx, List.append_nil, List.filter_map, List.map_map, htx, Option.bind_some,
    ← Dict.map_filter_entries]
  by_cases hdpid : dpid = port.1
  · subst hdpid
    rw [if_pos rfl]
    congr 1
    apply List.filter_congr
    intro e _
    simp [Prod.ext_iff]
  · rw [if_neg hdpid, List.map_eq_nil_iff, List.filter_eq_nil_iff]
    intro e _
    simp [Prod.ext_iff, hdpid]

/-- The list of a port holds what the switch has reported for it. -/
theorem listOf_updateStatLists {answers : List (Int × PortStatsResponse)} {lists : StatLists}
    (h : updateStatLists .empty answers = some lists) (port : Int × Int) :
    listOf lists.txStatsList port = reported getTxPackets answers port := by
  induction answers using List.reverseRecOn generalizing lists with
  | nil =>
      obtain rfl : StatLists.empty = lists := Option.some.inj h
      rfl
  | append_singleton answers answer ih =>
      obtain ⟨before, samples, hbefore, hsamples, rfl⟩ := updateStatLists_concat.mp h
      rw [listOf_foldl_append, ih hbefore, counts_of_samplesOf hsamples, reported, reported, List.filter_append,
        List.filterMap_append]
      congr 1
      by_cases hdpid : answer.1 = port.1
      · rw [if_pos hdpid, List.filter_cons_of_pos (by simpa using hdpid), List.filter_nil, List.filterMap_cons]
        split <;> rename_i heq <;> rw [heq] <;> rfl
      · rw [if_neg hdpid, List.filter_cons_of_neg (by simpa using hdpid)]
        rfl

/-- No list is empty. -/
theorem all_updateStatLists {answers : List (Int × PortStatsResponse)} {lists : StatLists}
    (h : updateStatLists .empty answers = some lists) : lists.txStatsList.All (· ≠ []) := by
  have happend : ∀ (samples : List Sample) (lists : StatLists), lists.txStatsList.All (· ≠ []) →
      (samples.foldl StatLists.append lists).txStatsList.All (· ≠ []) := by
    intro samples
    induction samples with
    | nil => exact fun lists hlists => hlists
    | cons sample samples ih =>
        intro lists hlists
        apply ih
        rw [StatLists.append]
        split
        · exact hlists
        · exact hlists.set _ (by simp)
  induction answers using List.reverseRecOn generalizing lists with
  | nil =>
      obtain rfl : StatLists.empty = lists := Option.some.inj h
      intro port counts hget
      cases hget
  | append_singleton answers answer ih =>
      obtain ⟨before, samples, hbefore, hsamples, rfl⟩ := updateStatLists_concat.mp h
      exact happend samples before (ih hbefore)

end OfTestbed.PortMonitor
