import Mathlib.Algebra.Order.BigOperators.Group.List
import OfTestbed.LibEmit
import OfTestbed.LibLoop
import OfTestbed.LibPacing
import OfTestbed.TrafficGen

/-!
The loop of the traffic generator that sends the packets (`transmit` and `generate_traffic` in
`traffic_generation/traffic_gen.py`). Every flow has a timer; a flow whose timer has run out sends a burst of packets,
is counted and starts its timer anew, and the loop waits for the next timer. The clock is read many times: what it shows
is given with each turn. The program returns, raises, or is interrupted by a signal between any two events; the handler
of the signal then writes the counts as they are.
-/

namespace OfTestbed.TrafficGen

open Lib

/-! ### The program -/

/-- What the loop reads of the parameters of a flow. -/
structure FlowParameters where
  probMat : List ℚ
  tagValue : List Nat
  packetLen : Nat
  timeSlice : ℚ

inductive Event where
  | send (flow : Nat) (mark : Nat)
  | count (flow : Nat)
  deriving DecidableEq

def burstCount : Nat := 10

def computeInterPktDelay (pktLen : Nat) (txRate timeSliceDuration : ℚ) : ℚ :=
  if txRate = 0 then timeSliceDuration else pktLen / txRate * burstCount

/-- The clocks and the random numbers in a turn of the loop: the time of the test of the loop, then the performance
counter at the start of the turn, after the bursts, at the start of `wait`, in its loop, and at the end of the turn. -/
structure Turn where
  time : ℚ
  loopStart : ℚ
  burstsDone : ℚ
  waitStart : ℚ
  polls : List ℚ
  loopEnd : ℚ
  randomPick : Nat → Nat → ℚ

/-- `actual_wait`. -/
def Turn.actualWait (turn : Turn) : ℚ := turn.loopEnd - turn.loopStart

/-- A packet, with its mark. `set_dscp` raises without one. -/
def sendPacket (fp : FlowParameters) (flow : Nat) (randomPick : ℚ) : Emit Event Unit := do
  let mark ← Emit.ofOption ((selectDscp fp.probMat fp.tagValue randomPick).bind id)
  Emit.emit (.send flow mark)

def sendBurst (fp : FlowParameters) (flow : Nat) (randomPick : Nat → ℚ) : Emit Event Unit := do
  (List.range burstCount).foldlM (fun _ k => sendPacket fp flow (randomPick k)) ()
  Emit.emit (.count flow)

/-- The turn of a flow whose timer has run out. -/
def sendExpired (flowParams : List FlowParameters) (ipdList : List ℚ) (turn : Turn) (timers : List ℚ) (flow : Nat) :
    Emit Event (List ℚ) := do
  let fp ← Emit.ofOption flowParams[flow]?
  sendBurst fp flow (turn.randomPick flow)
  let ipd ← Emit.ofOption ipdList[flow]?
  return timers.set flow ipd

def expired (timers : List ℚ) : List Nat := (timers.zipIdx.filter fun e => e.1 ≤ 0).map Prod.snd

/-- The busy loop of `wait`, which ends at the first reading that is late enough. -/
def wait (t : ℚ) (start : ℚ) (polls : List ℚ) : Option ℚ := polls.find? fun now => ¬ (now - start < t)

/-- One turn of the loop of `transmit`. -/
def transmitTurn (flowParams : List FlowParameters) (ipdList timers : List ℚ) (turn : Turn) : Emit Event (List ℚ) := do
  let timers ← (expired timers).foldlM (sendExpired flowParams ipdList turn) timers
  let tOffset := max 0 (turn.burstsDone - turn.loopStart)
  let shortest ← Emit.ofOption timers.min?
  let _ ← Emit.ofOption (wait (shortest - tOffset) turn.waitStart turn.polls)
  return timers.map (· - turn.actualWait)

/-- The turns up to the first test of the loop that fails. -/
def turnsOf (duration startTime : ℚ) (turns : List Turn) : List Turn :=
  turns.takeWhile fun turn => turn.time - startTime < duration

def transmit (flowParams : List FlowParameters) (ipdList : List ℚ) (duration startTime : ℚ) (turns : List Turn) :
    Emit Event (List ℚ) := do
  let _ ← Emit.ofOption ipdList.min?
  (turnsOf duration startTime turns).foldlM (transmitTurn flowParams ipdList) ipdList

/-- A round of `generate_traffic`: the rates that are drawn for it, and its turns. -/
structure Round where
  rates : List ℚ
  startTime : ℚ
  turns : List Turn

def ipdListOf (flowParams : List FlowParameters) (rates : List ℚ) : List ℚ :=
  List.zipWith (fun fp rate => computeInterPktDelay fp.packetLen rate fp.timeSlice) flowParams rates

def transmitRound (flowParams : List FlowParameters) (round : Round) : Emit Event (List ℚ) := do
  let first ← Emit.ofOption flowParams[0]?
  transmit flowParams (ipdListOf flowParams round.rates) first.timeSlice round.startTime round.turns

/-- The rounds of `generate_traffic` so far. -/
def generateTraffic (flowParams : List FlowParameters) (rounds : List Round) : Emit Event Unit :=
  rounds.foldlM (fun _ round => do let _ ← transmitRound flowParams round) ()

/-! ### Interruptions -/

/-- The packets of a flow that were sent. -/
def sentOf (flow : Nat) (events : List Event) : Nat :=
  events.countP fun event => match event with
    | .send flow' _ => flow' = flow
    | .count _ => false

/-- The count of a flow, which goes up by a burst at a time. -/
def countOf (flow : Nat) (events : List Event) : Nat := burstCount * events.count (.count flow)

/-- Bursts one after the other, each counted at its end. -/
inductive Bursts : List Event → Prop where
  | nil : Bursts []
  | burst {before : List Event} (flow : Nat) (marks : List Nat) :
      Bursts before → marks.length = burstCount →
      Bursts (before ++ (marks.map (Event.send flow) ++ [.count flow]))

/-- Bursts, and then a part of one that is not counted yet. -/
def Interrupted (events : List Event) : Prop :=
  ∃ (before : List Event) (flow : Nat) (marks : List Nat), Bursts before ∧ marks.length ≤ burstCount ∧
    events = before ++ marks.map (Event.send flow)

theorem Bursts.append {before after : List Event} (hbefore : Bursts before) (hafter : Bursts after) :
    Bursts (before ++ after) := by
  induction hafter with
  | nil => rwa [List.append_nil]
  | burst flow marks _ hlength ih =>
      rw [← List.append_assoc]
      exact .burst flow marks ih hlength

theorem Bursts.interrupted {events : List Event} (h : Bursts events) : Interrupted events :=
  ⟨events, 0, [], h, Nat.zero_le _, (List.append_nil events).symm⟩

theorem Bursts.append_interrupted {before after : List Event} (hbefore : Bursts before) (hafter : Interrupted after) :
    Interrupted (before ++ after) := by
  obtain ⟨done, flow, marks, hdone, hlength, rfl⟩ := hafter
  exact ⟨before ++ done, flow, marks, hbefore.append hdone, hlength, (List.append_assoc _ _ _).symm⟩

/-- The beginning of bursts is bursts and the beginning of one. -/
theorem Bursts.interrupted_of_part {events part : List Event} (h : Bursts events) (hpart : part <+: events) :
    Interrupted part := by
  induction h with
  | nil =>
      rw [List.prefix_nil.mp hpart]
      exact Bursts.nil.interrupted
  | @burst before flow marks hbefore hlength ih =>
      rcases List.prefix_or_prefix_of_prefix hpart (List.prefix_append before _) with hfirst | ⟨rest, rfl⟩
      · exact ih hfirst
      · rw [List.prefix_append_right_inj, List.prefix_concat_iff] at hpart
        obtain rfl | hsends := hpart
        · exact (Bursts.burst flow marks hbefore hlength).interrupted
        · obtain ⟨k, rfl⟩ : ∃ k, rest = (marks.take k).map (Event.send flow) := by
            refine ⟨rest.length, ?_⟩
            rw [List.map_take]
            exact List.prefix_iff_eq_take.mp hsends
          refine ⟨before, flow, marks.take k, hbefore, ?_, rfl⟩
          rw [List.length_take, hlength]
          exact Nat.min_le_right k burstCount

theorem Interrupted.of_part {events part : List Event} (h : Interrupted events) (hpart : part <+: events) :
    Interrupted part := by
  obtain ⟨before, flow, marks, hbefore, hlength, rfl⟩ := h
  -- fill the burst up and count it: the events are the beginning of that
  have hfull : (marks ++ List.replicate (burstCount - marks.length) 0).length = burstCount := by
    rw [List.length_append, List.length_replicate]
    omega
  refine (Bursts.burst flow _ hbefore hfull).interrupted_of_part (hpart.trans ?_)
  rw [List.prefix_append_right_inj, List.map_append, List.append_assoc]
  exact List.prefix_append _ _

theorem sentOf_append (flow : Nat) (events events' : List Event) :
    sentOf flow (events ++ events') = sentOf flow events + sentOf flow events' := List.countP_append

theorem countOf_append (flow : Nat) (events events' : List Event) :
    countOf flow (events ++ events') = countOf flow events + countOf flow events' := by
  rw [countOf, List.count_append, Nat.mul_add]
  rfl

theorem sentOf_sends (flow flow' : Nat) (marks : List Nat) :
    sentOf flow (marks.map (Event.send flow')) = if flow' = flow then marks.length else 0 := by
  rw [sentOf, List.countP_map]
  by_cases heq : flow' = flow
  · rw [if_pos heq, List.countP_eq_length]
    exact fun mark _ => decide_eq_true heq
  · rw [if_neg heq, List.countP_eq_zero]
    exact fun mark _ => by simpa using heq

theorem count_sends (flow flow' : Nat) (marks : List Nat) : (marks.map (Event.send flow)).count (.count flow') = 0 := by
  rw [List.count_eq_zero_of_not_mem]
  rw [List.mem_map]
  rintro ⟨mark, -, heq⟩
  cases heq

theorem countOf_sends (flow flow' : Nat) (marks : List Nat) : countOf flow (marks.map (Event.send flow')) = 0 := by
  rw [countOf, count_sends, Nat.mul_zero]

/-- At the end of a burst all that was sent is counted. -/
theorem Bursts.sentOf_eq {events : List Event} (h : Bursts events) (flow : Nat) :
    sentOf flow events = countOf flow events := by
  induction h with
  | nil => rfl
  | burst flow' marks _ hlength ih =>
      rw [sentOf_append, countOf_append, sentOf_append, countOf_append, ih, sentOf_sends, countOf_sends, hlength]
      by_cases heq : flow' = flow
      · subst heq
        simp [sentOf, countOf]
      · simp [sentOf, countOf, heq]

/-- What was sent and is not counted is the beginning of one burst of one flow. -/
theorem Interrupted.exists_uncounted {events : List Event} (h : Interrupted events) :
    ∃ flow k, k ≤ burstCount ∧ ∀ flow', sentOf flow' events = countOf flow' events + if flow' = flow then k else 0 := by
  obtain ⟨before, flow, marks, hbefore, hlength, rfl⟩ := h
  refine ⟨flow, marks.length, hlength, fun flow' => ?_⟩
  rw [sentOf_append, countOf_append, sentOf_sends, countOf_sends, hbefore.sentOf_eq, Nat.add_zero]
  simp only [eq_comm]

/-! ### The events of the program -/

theorem spec_sendPacket (fp : FlowParameters) (flow : Nat) (randomPick : ℚ) :
    (sendPacket fp flow randomPick).Spec (fun _ events => ∃ mark, events = [.send flow mark])
      fun events => events = [] := by
  unfold sendPacket
  refine (Emit.spec_ofOption _).bind (fun _ h => h) ?_
  rintro mark _ ⟨-, rfl⟩
  exact Emit.spec_emit ⟨mark, rfl⟩

/-- A burst that ends is counted, and one that does not is not. -/
theorem spec_sendBurst (fp : FlowParameters) (flow : Nat) (randomPick : Nat → ℚ) :
    (sendBurst fp flow randomPick).Spec
      (fun _ events => ∃ marks : List Nat, marks.length = burstCount ∧
        events = marks.map (Event.send flow) ++ [.count flow])
      fun events => ∃ marks : List Nat, marks.length ≤ burstCount ∧ events = marks.map (Event.send flow) := by
  unfold sendBurst
  refine (Emit.spec_foldlM
    (fun done _ events => ∃ marks : List Nat, marks.length = done.length ∧ events = marks.map (Event.send flow))
    (fun events => ∃ marks : List Nat, marks.length ≤ burstCount ∧ events = marks.map (Event.send flow))
    ⟨[], rfl, rfl⟩ ?_).bind (fun _ h => h) fun _ before hbefore => Emit.spec_emit ?_
  · intro done k rest _ sofar hsplit hinv
    obtain ⟨marks, hlength, rfl⟩ := hinv
    refine (spec_sendPacket fp flow (randomPick k)).mono ?_ ?_
    · rintro _ _ ⟨mark, rfl⟩
      refine ⟨marks ++ [mark], ?_, ?_⟩
      · rw [List.length_append, List.length_append, hlength]
        rfl
      · rw [List.map_append]
        rfl
    · rintro _ rfl
      refine ⟨marks, ?_, List.append_nil _⟩
      have htotal := congrArg List.length hsplit
      rw [List.length_range, List.length_append] at htotal
      omega
  · obtain ⟨marks, hlength, rfl⟩ := hbefore
    exact ⟨marks, hlength.trans List.length_range, rfl⟩

theorem count_burst (flow flow' : Nat) (marks : List Nat) :
    (marks.map (Event.send flow) ++ [Event.count flow]).count (.count flow') = if flow = flow' then 1 else 0 := by
  rw [List.count_append, count_sends, List.count_singleton]
  simp

/-- The turn of a flow is a burst, and starts the timer of the flow anew. -/
theorem spec_sendExpired (flowParams : List FlowParameters) (ipdList : List ℚ) (turn : Turn) (timers : List ℚ)
    (flow : Nat) :
    (sendExpired flowParams ipdList turn timers flow).Spec
      (fun timers' events => (∃ ipd, ipdList[flow]? = some ipd ∧ timers' = timers.set flow ipd) ∧
        ∃ marks : List Nat, marks.length = burstCount ∧ events = marks.map (Event.send flow) ++ [.count flow])
      fun events => Interrupted events ∧ ∀ flow', events.count (.count flow') ≤ if flow = flow' then 1 else 0 := by
  unfold sendExpired
  refine (Emit.spec_ofOption _).bind ?_ ?_
  · rintro _ rfl
    exact ⟨Bursts.nil.interrupted, fun flow' => Nat.zero_le _⟩
  rintro fp _ ⟨-, rfl⟩
  refine (spec_sendBurst fp flow (turn.randomPick flow)).bind ?_ fun _ before hbefore => ?_
  · rintro _ ⟨marks, hlength, rfl⟩
    refine ⟨⟨[], flow, marks, .nil, hlength, rfl⟩, fun flow' => ?_⟩
    rw [List.nil_append, count_sends]
    exact Nat.zero_le _
  · obtain ⟨marks, hlength, rfl⟩ := hbefore
    refine (Emit.spec_ofOption _).bind ?_ ?_
    · rintro _ rfl
      rw [List.nil_append, List.append_nil]
      exact ⟨(Bursts.burst flow marks .nil hlength).interrupted, fun flow' => (count_burst flow flow' marks).le⟩
    · rintro ipd _ ⟨hipd, rfl⟩
      refine Emit.spec_pure ⟨⟨ipd, hipd, rfl⟩, marks, hlength, ?_⟩
      rw [List.nil_append, List.append_nil, List.append_nil]

/-! ### One turn -/

theorem mem_expired {timers : List ℚ} {flow : Nat} :
    flow ∈ expired timers ↔ ∃ left, timers[flow]? = some left ∧ left ≤ 0 := by
  simp only [expired, List.mem_map, List.mem_filter, List.mem_zipIdx_iff_getElem?, decide_eq_true_eq]
  constructor
  · rintro ⟨⟨left, flow⟩, ⟨hget, hle⟩, rfl⟩
    exact ⟨left, hget, hle⟩
  · rintro ⟨left, hget, hle⟩
    exact ⟨(left, flow), ⟨hget, hle⟩, rfl⟩

theorem nodup_expired (timers : List ℚ) : (expired timers).Nodup :=
  (nodup_zipIdx_snd timers).sublist (List.filter_sublist.map Prod.snd)

/-- The timers after the bursts of a turn. -/
def renewed (ipdList timers : List ℚ) : List ℚ :=
  List.zipWith (fun ipd left => if left ≤ 0 then ipd else left) ipdList timers

/-- The loop over the flows whose timers have run out. -/
theorem spec_expiredLoop (flowParams : List FlowParameters) {ipdList timers : List ℚ}
    (hlength : timers.length = ipdList.length) (turn : Turn) :
    ((expired timers).foldlM (sendExpired flowParams ipdList turn) timers).Spec
      (fun timers' events => timers' = renewed ipdList timers ∧ Bursts events ∧
        ∀ flow, events.count (.count flow) = (expired timers).count flow)
      fun events => Interrupted events ∧ ∀ flow, events.count (.count flow) ≤ (expired timers).count flow := by
  refine (Emit.spec_foldlM (fun done timers' events =>
      (timers'.length = ipdList.length ∧
        ∀ flow, timers'[flow]? = if flow ∈ done then ipdList[flow]? else timers[flow]?) ∧
      Bursts events ∧ ∀ flow, events.count (.count flow) = done.count flow)
    (fun events => Interrupted events ∧ ∀ flow, events.count (.count flow) ≤ (expired timers).count flow)
    ⟨⟨hlength, fun flow => by simp⟩, .nil, fun flow => rfl⟩ ?_).mono ?_ fun _ h => h
  · intro done flow rest timers' sofar hsplit hinv
    obtain ⟨⟨hlength', htimers⟩, hbursts, hcount⟩ := hinv
    refine (spec_sendExpired flowParams ipdList turn timers' flow).mono ?_ ?_
    · rintro _ _ ⟨⟨ipd, hipd, rfl⟩, marks, hmarks, rfl⟩
      refine ⟨⟨?_, fun flow' => ?_⟩, .burst flow marks hbursts hmarks, fun flow' => ?_⟩
      · rw [List.length_set, hlength']
      · by_cases heq : flow' = flow
        · subst heq
          have hlt : flow' < timers'.length := hlength' ▸ (List.getElem?_eq_some_iff.mp hipd).1
          rw [List.getElem?_set_self hlt, if_pos (List.mem_append_right _ List.mem_cons_self), hipd]
        · rw [List.getElem?_set_ne (Ne.symm heq), htimers]
          simp only [List.mem_append, List.mem_singleton, heq, or_false]
      · rw [List.count_append, hcount, count_burst, List.count_append, List.count_singleton]
        simp only [beq_iff_eq]
    · rintro events ⟨hevents, hle⟩
      refine ⟨hbursts.append_interrupted hevents, fun flow' => ?_⟩
      rw [List.count_append, hcount, hsplit, List.count_append, List.count_cons]
      have := hle flow'
      simp only [beq_iff_eq]
      omega
  · rintro timers' events ⟨⟨-, htimers⟩, hbursts, hcount⟩
    refine ⟨List.ext_getElem? fun flow => ?_, hbursts, hcount⟩
    rw [htimers, renewed, List.getElem?_zipWith]
    cases hleft : timers[flow]? with
    | none =>
        have hnone : ipdList[flow]? = none := by
          rw [List.getElem?_eq_none_iff, ← hlength]
          exact List.getElem?_eq_none_iff.mp hleft
        rw [hnone, ite_self]
    | some left =>
        obtain ⟨ipd, hipd⟩ : ∃ ipd, ipdList[flow]? = some ipd :=
          ⟨_, List.getElem?_eq_getElem (hlength ▸ (List.getElem?_eq_some_iff.mp hleft).1)⟩
        rw [hipd]
        by_cases hout : left ≤ 0
        · rw [if_pos (mem_expired.mpr ⟨left, hleft, hout⟩)]
          simp [hout]
        · rw [if_neg fun hmem => ?_]
          · simp [hout]
          · obtain ⟨left', hleft', hle⟩ := mem_expired.mp hmem
            cases hleft.symm.trans hleft'
            exact hout hle

/-- A turn that ends has waited until the shortest of its timers was over. -/
def Turn.Waited (turn : Turn) (timers : List ℚ) : Prop :=
  ∃ shortest now, timers.min? = some shortest ∧ now ∈ turn.polls ∧
    shortest - max 0 (turn.burstsDone - turn.loopStart) ≤ now - turn.waitStart

theorem spec_transmitTurn (flowParams : List FlowParameters) {ipdList timers : List ℚ}
    (hlength : timers.length = ipdList.length) (turn : Turn) :
    (transmitTurn flowParams ipdList timers turn).Spec
      (fun timers' events => timers' = (renewed ipdList timers).map (· - turn.actualWait) ∧
        turn.Waited (renewed ipdList timers) ∧ Bursts events ∧
        ∀ flow, events.count (.count flow) = (expired timers).count flow)
      fun events => Interrupted events ∧ ∀ flow, events.count (.count flow) ≤ (expired timers).count flow := by
  unfold transmitTurn
  refine (spec_expiredLoop flowParams hlength turn).bind (fun _ h => h) ?_
  rintro _ before ⟨rfl, hbursts, hcount⟩
  have hstop : Interrupted before ∧ ∀ flow, before.count (.count flow) ≤ (expired timers).count flow :=
    ⟨hbursts.interrupted, fun flow => (hcount flow).le⟩
  refine (Emit.spec_ofOption _).bind ?_ ?_
  · rintro _ rfl
    rwa [List.append_nil]
  rintro shortest _ ⟨hshortest, rfl⟩
  refine (Emit.spec_ofOption _).bind ?_ ?_
  · rintro _ rfl
    rwa [List.nil_append, List.append_nil]
  rintro now _ ⟨hnow, rfl⟩
  have hwaited : turn.Waited (renewed ipdList timers) := by
    rw [wait] at hnow
    refine ⟨shortest, now, hshortest, List.mem_of_find?_eq_some hnow, ?_⟩
    have hlate := List.find?_some hnow
    simpa using hlate
  refine Emit.spec_pure ⟨rfl, hwaited, ?_⟩
  simp only [List.append_nil]
  exact ⟨hbursts, hcount⟩

/-! ### The loop -/

/-- The timer of a flow after some turns, with the bursts that the flow has sent. -/
def timerOf (ipd : ℚ) (turns : List Turn) : Timer ℚ :=
  (turns.map Turn.actualWait).foldl (Timer.turn ipd) (Timer.start ipd)

theorem timerOf_concat (ipd : ℚ) (turns : List Turn) (turn : Turn) :
    timerOf ipd (turns ++ [turn]) = (timerOf ipd turns).turn ipd turn.actualWait := by
  rw [timerOf, List.map_append, List.foldl_append]
  rfl

/-- Before a turn the timers and the counts are those of the flows, each for itself. -/
structure Ticking (ipdList : List ℚ) (done : List Turn) (timers : List ℚ) (events : List Event) : Prop where
  length_eq : timers.length = ipdList.length
  left : ∀ (flow : Nat) (ipd : ℚ), ipdList[flow]? = some ipd → timers[flow]? = some (timerOf ipd done).left
  fired : ∀ (flow : Nat) (ipd : ℚ), ipdList[flow]? = some ipd → events.count (.count flow) = (timerOf ipd done).fired
  bursts : Bursts events

theorem Ticking.start (ipdList : List ℚ) : Ticking ipdList [] ipdList [] :=
  ⟨rfl, fun _ _ h => h, fun _ _ _ => rfl, .nil⟩

/-- A flow whose timer has run out sends in the turn, no other one does. -/
theorem Ticking.count_expired {ipdList timers : List ℚ} {done : List Turn} {events : List Event}
    (h : Ticking ipdList done timers events) {flow : Nat} {ipd : ℚ} (hipd : ipdList[flow]? = some ipd) :
    (expired timers).count flow = if (timerOf ipd done).left ≤ 0 then 1 else 0 := by
  by_cases hout : (timerOf ipd done).left ≤ 0
  · rw [if_pos hout]
    exact List.count_eq_one_of_mem (nodup_expired timers) (mem_expired.mpr ⟨_, h.left flow ipd hipd, hout⟩)
  · rw [if_neg hout]
    refine List.count_eq_zero_of_not_mem fun hmem => ?_
    obtain ⟨left, hleft, hle⟩ := mem_expired.mp hmem
    cases (h.left flow ipd hipd).symm.trans hleft
    exact hout hle

theorem Ticking.turn {ipdList timers : List ℚ} {done : List Turn} {sofar events : List Event}
    (h : Ticking ipdList done timers sofar) {turn : Turn} (hbursts : Bursts events)
    (hcount : ∀ flow, events.count (.count flow) = (expired timers).count flow) :
    Ticking ipdList (done ++ [turn]) ((renewed ipdList timers).map (· - turn.actualWait)) (sofar ++ events) := by
  refine ⟨?_, fun flow ipd hipd => ?_, fun flow ipd hipd => ?_, h.bursts.append hbursts⟩
  · rw [List.length_map, renewed, List.length_zipWith, h.length_eq, Nat.min_self]
  · rw [List.getElem?_map, renewed, List.getElem?_zipWith, hipd, h.left flow ipd hipd, timerOf_concat, Timer.turn]
    by_cases hout : (timerOf ipd done).left ≤ 0
    · simp [hout]
    · simp [hout]
  · rw [List.count_append, hcount, h.count_expired hipd, h.fired flow ipd hipd, timerOf_concat, Timer.turn]
    split <;> rfl

/-- The clock never goes back within a turn. -/
structure Turn.Monotone (turn : Turn) : Prop where
  burstsDone : turn.loopStart ≤ turn.burstsDone
  waitStart : turn.burstsDone ≤ turn.waitStart
  polls : ∀ now ∈ turn.polls, turn.waitStart ≤ now ∧ now ≤ turn.loopEnd
  loopEnd : turn.waitStart ≤ turn.loopEnd

theorem Turn.Monotone.actualWait_nonneg {turn : Turn} (h : turn.Monotone) : 0 ≤ turn.actualWait :=
  sub_nonneg.mpr ((h.burstsDone.trans h.waitStart).trans h.loopEnd)

/-- The sum of the turns. -/
def elapsedIn (turns : List Turn) : ℚ := (turns.map Turn.actualWait).sum

/-- What was sent is within the rate: the bursts of a flow take no more than the time of the turns. -/
def WithinRate (ipdList : List ℚ) (elapsed : ℚ) (events : List Event) : Prop :=
  ∀ (flow : Nat) (ipd : ℚ), ipdList[flow]? = some ipd → events.count (.count flow) * ipd ≤ elapsed

theorem elapsedIn_nonneg {turns : List Turn} (h : ∀ turn ∈ turns, 0 ≤ turn.actualWait) : 0 ≤ elapsedIn turns := by
  refine List.sum_nonneg fun wait hwait => ?_
  obtain ⟨turn, hturn, rfl⟩ := List.mem_map.mp hwait
  exact h turn hturn

theorem elapsedIn_append (turns turns' : List Turn) :
    elapsedIn (turns ++ turns') = elapsedIn turns + elapsedIn turns' := by
  rw [elapsedIn, List.map_append, List.sum_append]
  rfl

section Loop

variable {flowParams : List FlowParameters} {ipdList : List ℚ} {turns : List Turn} {bound : ℚ}

theorem paced_timerOf {ipd : ℚ} (hipd : 0 < ipd) (hbound : 0 < bound)
    (hclock : ∀ turn ∈ turns, 0 ≤ turn.actualWait ∧ turn.actualWait < bound) :
    (timerOf ipd turns).Paced ipd bound (elapsedIn turns) := by
  refine Timer.paced_foldl hipd hbound fun wait hwait => ?_
  obtain ⟨turn, hturn, rfl⟩ := List.mem_map.mp hwait
  exact hclock turn hturn

/-- A part of a turn stays within the rate of the turns before it. -/
theorem Ticking.withinRate {timers : List ℚ} {done : List Turn} {sofar events : List Event}
    (h : Ticking ipdList done timers sofar) (hpos : ∀ ipd ∈ ipdList, 0 < ipd) (hbound : 0 < bound)
    (hclock : ∀ turn ∈ done, 0 ≤ turn.actualWait ∧ turn.actualWait < bound)
    (hcount : ∀ flow, events.count (.count flow) ≤ (expired timers).count flow) :
    WithinRate ipdList (elapsedIn done) (sofar ++ events) := by
  intro flow ipd hipd
  have hperiod : 0 < ipd := hpos ipd (List.mem_of_getElem? hipd)
  have hpaced := paced_timerOf hperiod hbound hclock
  have hle := hcount flow
  rw [h.count_expired hipd] at hle
  rw [List.count_append, h.fired flow ipd hipd, Nat.cast_add]
  have hfired := hpaced.fired_le
  by_cases hout : (timerOf ipd done).left ≤ 0
  · rw [if_pos hout] at hle
    have hcast : ((events.count (.count flow) : Nat) : ℚ) ≤ 1 := by exact_mod_cast hle
    nlinarith
  · rw [if_neg hout, Nat.le_zero] at hle
    rw [hle, Nat.cast_zero, add_zero]
    exact hpaced.bounds.1

theorem exists_bound (turns : List Turn) : ∃ bound : ℚ, 0 < bound ∧ ∀ turn ∈ turns, turn.actualWait < bound := by
  induction turns with
  | nil => exact ⟨1, one_pos, by simp⟩
  | cons turn rest ih =>
      obtain ⟨bound, hpos, hrest⟩ := ih
      refine ⟨max bound (turn.actualWait + 1), lt_max_of_lt_left hpos, ?_⟩
      rw [List.forall_mem_cons]
      exact ⟨lt_max_of_lt_right (lt_add_one _), fun turn' hturn' => lt_max_of_lt_left (hrest turn' hturn')⟩

/-- The turns of a run of the loop. -/
theorem spec_turns (hpos : ∀ ipd ∈ ipdList, 0 < ipd) (hclock : ∀ turn ∈ turns, 0 ≤ turn.actualWait) :
    (turns.foldlM (transmitTurn flowParams ipdList) ipdList).Spec
      (fun timers events => Ticking ipdList turns timers events)
      fun events => Interrupted events ∧ WithinRate ipdList (elapsedIn turns) events := by
  refine Emit.spec_foldlM (Ticking ipdList) _ (Ticking.start ipdList) ?_
  intro done turn rest timers sofar hsplit hticking
  refine (spec_transmitTurn flowParams hticking.length_eq turn).mono ?_ ?_
  · rintro _ events ⟨rfl, -, hbursts, hcount⟩
    exact hticking.turn hbursts hcount
  · rintro events ⟨hevents, hcount⟩
    refine ⟨hticking.bursts.append_interrupted hevents, fun flow ipd hipd => ?_⟩
    obtain ⟨bound, hbound, hlt⟩ := exists_bound done
    have hdone : ∀ turn' ∈ done, 0 ≤ turn'.actualWait ∧ turn'.actualWait < bound :=
      fun turn' hturn' => ⟨hclock turn' (hsplit ▸ List.mem_append_left _ hturn'), hlt turn' hturn'⟩
    have hrest : 0 ≤ elapsedIn (turn :: rest) :=
      elapsedIn_nonneg fun turn' hturn' => hclock turn' (hsplit ▸ List.mem_append_right done hturn')
    have hwithin := hticking.withinRate hpos hbound hdone hcount flow ipd hipd
    rw [hsplit, elapsedIn_append]
    linarith

/-- At the end of a turn the shortest of its timers is over. -/
theorem Turn.Waited.exists_le {turn : Turn} {timers : List ℚ} (h : turn.Waited timers) (hclock : turn.Monotone) :
    ∃ left ∈ timers, left - turn.actualWait ≤ 0 := by
  obtain ⟨shortest, now, hshortest, hnow, hwaited⟩ := h
  obtain ⟨hbursts, hstart, hpolls, -⟩ := hclock
  obtain ⟨hafter, hbefore⟩ := hpolls now hnow
  rw [max_eq_right (sub_nonneg.mpr hbursts)] at hwaited
  refine ⟨shortest, List.min?_mem hshortest, ?_⟩
  unfold Turn.actualWait
  linarith

/-- The bursts that were sent. -/
def burstsIn (events : List Event) : Nat :=
  events.countP fun event => match event with
    | .send _ _ => false
    | .count _ => true

/-- After the first turn no turn is idle. -/
theorem spec_turns_busy (hclock : ∀ turn ∈ turns, turn.Monotone) :
    (turns.foldlM (transmitTurn flowParams ipdList) ipdList).Spec
      (fun _ events => turns.length ≤ burstsIn events + 1) fun _ => True := by
  refine (Emit.spec_foldlM (fun done timers events => timers.length = ipdList.length ∧
      done.length ≤ burstsIn events + 1 ∧ (done ≠ [] → ∃ left ∈ timers, left ≤ 0))
    (fun _ => True) ⟨rfl, Nat.zero_le _, fun h => absurd rfl h⟩ ?_).mono (fun _ _ h => h.2.1) fun _ h => h
  intro done turn rest timers sofar hsplit hinv
  obtain ⟨hlength, hbusy, hout⟩ := hinv
  refine (spec_transmitTurn flowParams hlength turn).mono ?_ fun _ _ => trivial
  rintro _ events ⟨rfl, hwaited, -, hcount⟩
  refine ⟨?_, ?_, fun _ => ?_⟩
  · rw [List.length_map, renewed, List.length_zipWith, hlength, Nat.min_self]
  · have happend : burstsIn (sofar ++ events) = burstsIn sofar + burstsIn events := List.countP_append
    rw [happend, List.length_append, List.length_singleton]
    cases done with
    | nil => simp
    | cons first more =>
        obtain ⟨left, hmem, hle⟩ := hout (List.cons_ne_nil _ _)
        obtain ⟨flow, hflow⟩ := List.mem_iff_getElem?.mp hmem
        have hmem' : Event.count flow ∈ events := by
          rw [← List.count_pos_iff, hcount, List.count_pos_iff]
          exact mem_expired.mpr ⟨left, hflow, hle⟩
        have hpos : 0 < burstsIn events := List.countP_pos_iff.mpr ⟨_, hmem', rfl⟩
        omega
  · have hturn : turn.Monotone := hclock turn (hsplit ▸ List.mem_append_right done List.mem_cons_self)
    obtain ⟨left, hmem, hle⟩ := hwaited.exists_le hturn
    exact ⟨_, List.mem_map.mpr ⟨left, hmem, rfl⟩, hle⟩

end Loop

/-- What a call of `transmit` emits. -/
theorem spec_transmit (flowParams : List FlowParameters) {ipdList : List ℚ} (hpos : ∀ ipd ∈ ipdList, 0 < ipd)
    (duration startTime : ℚ) {turns : List Turn} (hclock : ∀ turn ∈ turnsOf duration startTime turns, turn.Monotone) :
    (transmit flowParams ipdList duration startTime turns).Spec
      (fun timers events => Ticking ipdList (turnsOf duration startTime turns) timers events ∧
        (turnsOf duration startTime turns).length ≤ burstsIn events + 1)
      fun events => Interrupted events ∧ WithinRate ipdList (elapsedIn (turnsOf duration startTime turns)) events := by
  have hnonneg : ∀ turn ∈ turnsOf duration startTime turns, 0 ≤ turn.actualWait :=
    fun turn hturn => (hclock turn hturn).actualWait_nonneg
  unfold transmit
  refine (Emit.spec_ofOption _).bind ?_ ?_
  · rintro _ rfl
    refine ⟨Bursts.nil.interrupted, fun flow ipd _ => ?_⟩
    rw [List.count_nil, Nat.cast_zero, zero_mul]
    exact elapsedIn_nonneg hnonneg
  · rintro _ _ ⟨-, rfl⟩
    exact ((spec_turns hpos hnonneg).and (spec_turns_busy hclock)).mono (fun _ _ h => h) fun _ h => h.1

/-- A flow with a delay of one second, and two turns of one second. -/
def sampleFlow : FlowParameters := ⟨[1], [7], 10, 2⟩

def sampleTurn (start : Nat) : Turn := ⟨start, start, start, start, [start + 1], start + 1, fun _ _ => 0⟩

def sampleRound : Round := ⟨[100], 0, [sampleTurn 0, sampleTurn 1]⟩

theorem monotone_sampleTurn (start : Nat) : (sampleTurn start).Monotone := by
  refine ⟨le_refl _, le_refl _, ?_, ?_⟩
  · simp [sampleTurn]
  · simp [sampleTurn]

theorem turnsOf_sample : turnsOf 2 0 sampleRound.turns = [sampleTurn 0, sampleTurn 1] := by
  simp [turnsOf, sampleRound, sampleTurn]

/-- The turns of a round. -/
def Round.executed (flowParams : List FlowParameters) (round : Round) : List Turn :=
  match flowParams[0]? with
  | none => []
  | some first => turnsOf first.timeSlice round.startTime round.turns

theorem Ticking.withinRate_self {ipdList timers : List ℚ} {turns : List Turn} {events : List Event}
    (h : Ticking ipdList turns timers events) (hpos : ∀ ipd ∈ ipdList, 0 < ipd)
    (hclock : ∀ turn ∈ turns, turn.Monotone) : WithinRate ipdList (elapsedIn turns) events := by
  obtain ⟨bound, hbound, hlt⟩ := exists_bound turns
  have hwithin : WithinRate ipdList (elapsedIn turns) (events ++ []) := h.withinRate hpos hbound
    (fun turn hturn => ⟨(hclock turn hturn).actualWait_nonneg, hlt turn hturn⟩) fun flow => Nat.zero_le _
  rwa [List.append_nil] at hwithin

theorem spec_transmitRound {flowParams : List FlowParameters} {round : Round}
    (hpos : ∀ ipd ∈ ipdListOf flowParams round.rates, 0 < ipd)
    (hclock : ∀ turn ∈ round.executed flowParams, turn.Monotone) :
    (transmitRound flowParams round).Spec
      (fun _ events => Bursts events ∧
        WithinRate (ipdListOf flowParams round.rates) (elapsedIn (round.executed flowParams)) events)
      fun events => Interrupted events ∧
        WithinRate (ipdListOf flowParams round.rates) (elapsedIn (round.executed flowParams)) events := by
  have hnil : WithinRate (ipdListOf flowParams round.rates) (elapsedIn (round.executed flowParams)) [] := by
    intro flow ipd _
    rw [List.count_nil, Nat.cast_zero, zero_mul]
    exact elapsedIn_nonneg fun turn hturn => (hclock turn hturn).actualWait_nonneg
  unfold transmitRound
  refine (Emit.spec_ofOption _).bind ?_ ?_
  · rintro _ rfl
    exact ⟨Bursts.nil.interrupted, hnil⟩
  · rintro first _ ⟨hfirst, rfl⟩
    have hexecuted : round.executed flowParams = turnsOf first.timeSlice round.startTime round.turns := by
      rw [Round.executed, hfirst]
    rw [hexecuted] at hclock ⊢
    refine (spec_transmit flowParams hpos first.timeSlice round.startTime hclock).mono ?_ fun _ h => h
    rintro _ events ⟨hticking, -⟩
    exact ⟨hticking.bursts, hticking.withinRate_self hpos hclock⟩

/-- The rate at which a flow sends. Without a rate it sends a burst in each time slice. -/
def FlowParameters.effectiveRate (fp : FlowParameters) (rate : ℚ) : ℚ :=
  if rate = 0 then burstCount * fp.packetLen / fp.timeSlice else rate

/-- The bytes that a flow may send in a round. -/
def Round.allowance (flowParams : List FlowParameters) (flow : Nat) (fp : FlowParameters) (round : Round) : ℚ :=
  fp.effectiveRate (round.rates.getD flow 0) * elapsedIn (round.executed flowParams)

/-- No rate of a round is negative, there is one for each flow, and the clock never goes back. -/
structure Round.Regular (flowParams : List FlowParameters) (round : Round) : Prop where
  length_eq : round.rates.length = flowParams.length
  rates_nonneg : ∀ rate ∈ round.rates, 0 ≤ rate
  clock : ∀ turn ∈ round.executed flowParams, turn.Monotone

/-- The packets of a flow are not empty, and its time slices are not. -/
def FlowParameters.Proper (fp : FlowParameters) : Prop := 0 < fp.packetLen ∧ 0 < fp.timeSlice

theorem FlowParameters.Proper.effectiveRate_pos {fp : FlowParameters} (h : fp.Proper) {rate : ℚ} (hrate : 0 ≤ rate) :
    0 < fp.effectiveRate rate := by
  obtain ⟨hlen, hslice⟩ := h
  have hlen' : (0 : ℚ) < fp.packetLen := by exact_mod_cast hlen
  have hburst : (0 : ℚ) < burstCount := by norm_num [burstCount]
  unfold FlowParameters.effectiveRate
  by_cases hzero : rate = 0
  · rw [if_pos hzero]
    positivity
  · rw [if_neg hzero]
    exact lt_of_le_of_ne hrate (Ne.symm hzero)

/-- In the delay of a flow its rate is that of one burst. -/
theorem FlowParameters.Proper.rate_mul_delay {fp : FlowParameters} (h : fp.Proper) (rate : ℚ) :
    fp.effectiveRate rate * computeInterPktDelay fp.packetLen rate fp.timeSlice = burstCount * fp.packetLen := by
  have hslice : fp.timeSlice ≠ 0 := h.2.ne'
  unfold FlowParameters.effectiveRate computeInterPktDelay
  by_cases hzero : rate = 0
  · rw [if_pos hzero, if_pos hzero, div_mul_cancel₀ _ hslice]
  · rw [if_neg hzero, if_neg hzero, ← mul_assoc, mul_div_cancel₀ _ hzero, mul_comm]

theorem FlowParameters.Proper.delay_pos {fp : FlowParameters} (h : fp.Proper) {rate : ℚ} (hrate : 0 ≤ rate) :
    0 < computeInterPktDelay fp.packetLen rate fp.timeSlice := by
  have hlen : (0 : ℚ) < fp.packetLen := by exact_mod_cast h.1
  have hburst : (0 : ℚ) < burstCount := by norm_num [burstCount]
  have hprod : 0 < fp.effectiveRate rate * computeInterPktDelay fp.packetLen rate fp.timeSlice := by
    rw [h.rate_mul_delay]
    positivity
  exact (pos_iff_pos_of_mul_pos hprod).mp (h.effectiveRate_pos hrate)

section Rounds

variable {flowParams : List FlowParameters} {round : Round}

theorem getElem?_ipdListOf {rates : List ℚ} {flow : Nat} {fp : FlowParameters} {rate : ℚ}
    (hfp : flowParams[flow]? = some fp) (hrate : rates[flow]? = some rate) :
    (ipdListOf flowParams rates)[flow]? = some (computeInterPktDelay fp.packetLen rate fp.timeSlice) := by
  rw [ipdListOf, List.getElem?_zipWith, hfp, hrate]

theorem Round.Regular.delay_pos (h : round.Regular flowParams) (hproper : ∀ fp ∈ flowParams, fp.Proper) :
    ∀ ipd ∈ ipdListOf flowParams round.rates, 0 < ipd := by
  intro ipd hipd
  obtain ⟨fp, rate, hmem, rfl⟩ : ∃ fp rate, (fp, rate) ∈ flowParams.zip round.rates ∧
      computeInterPktDelay fp.packetLen rate fp.timeSlice = ipd := by
    rw [ipdListOf, ← List.map_uncurry_zip_eq_zipWith, List.mem_map] at hipd
    obtain ⟨⟨fp, rate⟩, hmem, heq⟩ := hipd
    exact ⟨fp, rate, hmem, heq⟩
  obtain ⟨hfp, hrate⟩ := List.of_mem_zip hmem
  exact (hproper fp hfp).delay_pos (h.rates_nonneg rate hrate)

theorem Round.Regular.allowance_nonneg (h : round.Regular flowParams) {fp : FlowParameters} (hproper : fp.Proper)
    (flow : Nat) : 0 ≤ round.allowance flowParams flow fp := by
  have hrate : 0 ≤ round.rates.getD flow 0 := by
    rw [List.getD_eq_getElem?_getD]
    cases hget : round.rates[flow]? with
    | none => exact le_refl _
    | some rate => exact h.rates_nonneg rate (List.mem_of_getElem? hget)
  exact mul_nonneg (hproper.effectiveRate_pos hrate).le
    (elapsedIn_nonneg fun turn hturn => (h.clock turn hturn).actualWait_nonneg)

/-- A flow that keeps its delay keeps its rate. -/
theorem WithinRate.bytes_le {events : List Event}
    (h : WithinRate (ipdListOf flowParams round.rates) (elapsedIn (round.executed flowParams)) events)
    (hregular : round.Regular flowParams) {flow : Nat} {fp : FlowParameters} (hfp : flowParams[flow]? = some fp)
    (hproper : fp.Proper) :
    (countOf flow events : ℚ) * fp.packetLen ≤ round.allowance flowParams flow fp := by
  obtain ⟨rate, hrate⟩ : ∃ rate, round.rates[flow]? = some rate :=
    ⟨_, List.getElem?_eq_getElem (hregular.length_eq ▸ (List.getElem?_eq_some_iff.mp hfp).1)⟩
  have hpos := hproper.effectiveRate_pos (hregular.rates_nonneg rate (List.mem_of_getElem? hrate))
  have hle := h flow _ (getElem?_ipdListOf hfp hrate)
  rw [Round.allowance, List.getD_eq_getElem?_getD, hrate, Option.getD_some, countOf, Nat.cast_mul]
  calc (burstCount : ℚ) * events.count (.count flow) * fp.packetLen
      = events.count (.count flow) * (burstCount * fp.packetLen) := by ring
    _ = fp.effectiveRate rate *
          (events.count (.count flow) * computeInterPktDelay fp.packetLen rate fp.timeSlice) := by
        rw [← hproper.rate_mul_delay rate]
        ring
    _ ≤ fp.effectiveRate rate * elapsedIn (round.executed flowParams) := mul_le_mul_of_nonneg_left hle hpos.le

end Rounds

/-- The rounds of a run: the bytes of a flow that are counted. -/
theorem spec_generateTraffic {flowParams : List FlowParameters} (hproper : ∀ fp ∈ flowParams, fp.Proper)
    {rounds : List Round} (hregular : ∀ round ∈ rounds, round.Regular flowParams) {flow : Nat} {fp : FlowParameters}
    (hfp : flowParams[flow]? = some fp) :
    (generateTraffic flowParams rounds).Spec
      (fun _ events => (countOf flow events : ℚ) * fp.packetLen ≤
        (rounds.map (Round.allowance flowParams flow fp)).sum)
      fun events => (countOf flow events : ℚ) * fp.packetLen ≤
        (rounds.map (Round.allowance flowParams flow fp)).sum := by
  have hfp' : fp.Proper := hproper fp (List.mem_of_getElem? hfp)
  refine Emit.spec_foldlM (fun done _ events => (countOf flow events : ℚ) * fp.packetLen ≤
    (done.map (Round.allowance flowParams flow fp)).sum) _ (by simp [countOf]) ?_
  intro done round rest _ sofar hsplit hsofar
  have hround : round.Regular flowParams := hregular round (hsplit ▸ List.mem_append_right done List.mem_cons_self)
  have hbytes : ∀ events, WithinRate (ipdListOf flowParams round.rates) (elapsedIn (round.executed flowParams)) events →
      (countOf flow (sofar ++ events) : ℚ) * fp.packetLen ≤
        ((done ++ [round]).map (Round.allowance flowParams flow fp)).sum := by
    intro events hwithin
    have hle := hwithin.bytes_le hround hfp hfp'
    rw [countOf_append, Nat.cast_add, add_mul, List.map_append, List.sum_append, List.map_singleton, List.sum_singleton]
    exact add_le_add hsofar hle
  refine (spec_transmitRound (hround.delay_pos hproper) hround.clock).bind (fun events h => ?_) fun _ events h => ?_
  · have hrest : 0 ≤ (rest.map (Round.allowance flowParams flow fp)).sum := by
      refine List.sum_nonneg fun bytes hbytes => ?_
      obtain ⟨round', hround', rfl⟩ := List.mem_map.mp hbytes
      exact (hregular round' (by simp [hsplit, hround'])).allowance_nonneg hfp' flow
    have hle := hbytes events h.2
    rw [hsplit, List.append_cons, List.map_append, List.sum_append]
    linarith
  · refine Emit.spec_pure ?_
    rw [List.append_nil]
    exact hbytes events h.2

/-! ### The signal -/

/-- Whatever the clocks and the rates are, a call of `transmit` sends whole bursts. -/
theorem spec_transmit_bursts (flowParams : List FlowParameters) (ipdList : List ℚ) (duration startTime : ℚ)
    (turns : List Turn) :
    (transmit flowParams ipdList duration startTime turns).Spec (fun _ events => Bursts events) Interrupted := by
  unfold transmit
  refine (Emit.spec_ofOption _).bind ?_ ?_
  · rintro _ rfl
    exact Bursts.nil.interrupted
  · rintro _ _ ⟨-, rfl⟩
    refine (Emit.spec_foldlM (fun _ timers events => timers.length = ipdList.length ∧ Bursts events) Interrupted
      ⟨rfl, .nil⟩ ?_).mono (fun _ _ h => h.2) fun _ h => h
    intro done turn rest timers sofar _ hinv
    obtain ⟨hlength, hsofar⟩ := hinv
    refine (spec_transmitTurn flowParams hlength turn).mono ?_ fun events h => hsofar.append_interrupted h.1
    rintro _ events ⟨rfl, -, hevents, -⟩
    refine ⟨?_, hsofar.append hevents⟩
    rw [List.length_map, renewed, List.length_zipWith, hlength, Nat.min_self]

theorem spec_transmitRound_bursts (flowParams : List FlowParameters) (round : Round) :
    (transmitRound flowParams round).Spec (fun _ events => Bursts events) Interrupted := by
  unfold transmitRound
  refine (Emit.spec_ofOption _).bind ?_ ?_
  · rintro _ rfl
    exact Bursts.nil.interrupted
  · rintro first _ ⟨-, rfl⟩
    exact spec_transmit_bursts flowParams _ first.timeSlice round.startTime round.turns

theorem interrupted_generateTraffic (flowParams : List FlowParameters) (rounds : List Round) :
    Interrupted (generateTraffic flowParams rounds).events := by
  have hspec : (generateTraffic flowParams rounds).Spec (fun _ events => Bursts events) Interrupted := by
    refine Emit.spec_foldlM (fun _ _ events => Bursts events) Interrupted .nil ?_
    intro done round rest _ sofar _ hsofar
    refine (spec_transmitRound_bursts flowParams round).bind (fun _ h => hsofar.append_interrupted h)
      fun _ events h => ?_
    refine Emit.spec_pure ?_
    rw [List.append_nil]
    exact hsofar.append h
  exact hspec.events (fun _ _ h => h.interrupted) fun _ h => h

/-- A signal between any two events of any run: of the packets that were sent only the beginning of one burst of one
flow is not counted. -/
theorem generateTraffic_counted_at_signal (flowParams : List FlowParameters) (rounds : List Round) (part : List Event)
    (hpart : part <+: (generateTraffic flowParams rounds).events) :
    ∃ flow k, k ≤ burstCount ∧ ∀ flow', sentOf flow' part = countOf flow' part + if flow' = flow then k else 0 :=
  ((interrupted_generateTraffic flowParams rounds).of_part hpart).exists_uncounted

theorem generateTraffic_counted_at_signal_four_packets :
    sentOf 0 ((generateTraffic [sampleFlow] [sampleRound]).events.take 4) = 4 ∧
    ∃ flow k, k ≤ burstCount ∧ ∀ flow', sentOf flow' ((generateTraffic [sampleFlow] [sampleRound]).events.take 4) =
      countOf flow' ((generateTraffic [sampleFlow] [sampleRound]).events.take 4) + if flow' = flow then k else 0 :=
  ⟨by decide +kernel, generateTraffic_counted_at_signal [sampleFlow] [sampleRound] _ (List.take_prefix _ _)⟩

theorem countOf_mono {part events : List Event} (hpart : part <+: events) (flow : Nat) :
    countOf flow part ≤ countOf flow events := Nat.mul_le_mul_left _ (hpart.sublist.count_le _)

/-- A signal between any two events of a run: what a flow has sent is within its rates, but for one burst. -/
theorem generateTraffic_within_rate (flowParams : List FlowParameters) (hproper : ∀ fp ∈ flowParams, fp.Proper)
    (rounds : List Round) (hregular : ∀ round ∈ rounds, round.Regular flowParams) (part : List Event)
    (hpart : part <+: (generateTraffic flowParams rounds).events) (flow : Nat) (fp : FlowParameters)
    (hfp : flowParams[flow]? = some fp) :
    (countOf flow part : ℚ) * fp.packetLen ≤ (rounds.map (Round.allowance flowParams flow fp)).sum ∧
    (sentOf flow part : ℚ) * fp.packetLen ≤
      (rounds.map (Round.allowance flowParams flow fp)).sum + burstCount * fp.packetLen := by
  have hall : (countOf flow (generateTraffic flowParams rounds).events : ℚ) * fp.packetLen ≤
      (rounds.map (Round.allowance flowParams flow fp)).sum :=
    (spec_generateTraffic hproper hregular hfp).events (fun _ _ h => h) fun _ h => h
  have hlen : (0 : ℚ) ≤ fp.packetLen := Nat.cast_nonneg _
  have hcount : (countOf flow part : ℚ) * fp.packetLen ≤ (rounds.map (Round.allowance flowParams flow fp)).sum := by
    have hmono : (countOf flow part : ℚ) ≤ countOf flow (generateTraffic flowParams rounds).events := by
      exact_mod_cast countOf_mono hpart flow
    exact (mul_le_mul_of_nonneg_right hmono hlen).trans hall
  refine ⟨hcount, ?_⟩
  obtain ⟨flow', k, hk, hsent⟩ := ((interrupted_generateTraffic flowParams rounds).of_part hpart).exists_uncounted
  have hle : sentOf flow part ≤ countOf flow part + burstCount := by
    rw [hsent flow]
    split
    · omega
    · omega
  have hle' : (sentOf flow part : ℚ) ≤ countOf flow part + burstCount := by exact_mod_cast hle
  calc (sentOf flow part : ℚ) * fp.packetLen ≤ (countOf flow part + burstCount) * fp.packetLen :=
        mul_le_mul_of_nonneg_right hle' hlen
    _ = countOf flow part * fp.packetLen + burstCount * fp.packetLen := add_mul _ _ _
    _ ≤ _ := by linarith

theorem generateTraffic_within_rate_two_turns :
    countOf 0 (generateTraffic [sampleFlow] [sampleRound]).events = 10 ∧
    (sentOf 0 (generateTraffic [sampleFlow] [sampleRound]).events : ℚ) * sampleFlow.packetLen ≤
      ([sampleRound].map (Round.allowance [sampleFlow] 0 sampleFlow)).sum + burstCount * sampleFlow.packetLen := by
  have hproper : ∀ fp ∈ [sampleFlow], fp.Proper := by simp [FlowParameters.Proper, sampleFlow]
  have hexecuted : sampleRound.executed [sampleFlow] = [sampleTurn 0, sampleTurn 1] := turnsOf_sample
  have hregular : ∀ round ∈ [sampleRound], round.Regular [sampleFlow] := by
    rw [List.forall_mem_singleton]
    refine ⟨rfl, by simp [sampleRound], ?_⟩
    rw [hexecuted]
    simp [monotone_sampleTurn]
  exact ⟨by decide +kernel, (generateTraffic_within_rate [sampleFlow] hproper [sampleRound] hregular _
    (List.prefix_refl _) 0 sampleFlow rfl).2⟩

end OfTestbed.TrafficGen
