import OfTestbed.LibDefaultDict
import OfTestbed.LibText

/-!
The packet counts of the flows of a trial: `process_end_host_results` in `mp_routing.py`. Every flow is given the
first record of its source that is addressed to its destination and has not been used, and then the record of the
destination that goes with it. A record of the source without one at the destination is not marked as used: it is
given to all later flows of the pair as well, and none of them gets a count. `none` is an exception.
-/

namespace OfTestbed.EndHost

open Lib

structure SenderResults where
  dstIp : Text
  srcPort : Int
  pktCount : Int
  deriving DecidableEq

/-- The list of a sender's address, its port and the packets from there. -/
structure ReceiverResults where
  sourceIp : Text
  sourcePort : Int
  pktCount : Int
  deriving DecidableEq

structure HostResults where
  receiver : List ReceiverResults
  sender : Dict Int SenderResults

structure Flow where
  sourceNode : Int
  destinationNode : Int

structure CountDict where
  receiverCount : Int
  senderCount : Int
  deriving DecidableEq

/-- The state of the loop over the flows. The source keeps no list of the records that were taken; here it says which
record each count comes from. -/
structure Progress where
  usedSourcePorts : Dict Int (Finset Int)
  processedResults : Dict Int (Dict Int (List (Option CountDict)))
  taken : List (Int × SenderResults)

namespace Progress

def start : Progress := ⟨.empty, .empty, []⟩

/-- `used_source_ports[source_node]`. -/
def usedPorts (progress : Progress) (sourceNode : Int) : Finset Int := (progress.usedSourcePorts.get? sourceNode).getD ∅

/-- `processed_results[source_node][destination_node]`. -/
def entries (progress : Progress) (sourceNode destinationNode : Int) : List (Option CountDict) :=
  (progress.processedResults.get2? sourceNode destinationNode).getD []

def append (progress : Progress) (flow : Flow) (entry : Option CountDict) : Progress :=
  { progress with
    processedResults := progress.processedResults.set2 flow.sourceNode flow.destinationNode
      (progress.entries flow.sourceNode flow.destinationNode ++ [entry]) }

/-- `used_source_ports[source_node].add(sender_results["src_port"])`. -/
def use (progress : Progress) (sourceNode : Int) (senderResults : SenderResults) : Progress :=
  { progress with
    usedSourcePorts := progress.usedSourcePorts.set sourceNode
      (insert senderResults.srcPort (progress.usedPorts sourceNode))
    taken := progress.taken ++ [(sourceNode, senderResults)] }

end Progress

section Model

variable (getIpAddressForHostNumber : Int → Text) (endHostResults : Dict Int HostResults)

/-- One turn of the loop. -/
def processFlow (progress : Progress) (flow : Flow) : Option Progress := do
  let destinationIp := getIpAddressForHostNumber flow.destinationNode
  let sourceIp := getIpAddressForHostNumber flow.sourceNode
  let source ← endHostResults.get? flow.sourceNode
  match source.sender.values.find? fun results =>
      results.dstIp = destinationIp ∧ results.srcPort ∉ progress.usedPorts flow.sourceNode with
  | none => return progress.append flow none
  | some senderResults => do
      let destination ← endHostResults.get? flow.destinationNode
      match destination.receiver.find? fun results =>
          results.sourceIp = sourceIp ∧ results.sourcePort = senderResults.srcPort with
      | none => return progress.append flow none
      | some receiverResults =>
          return (progress.append flow (some ⟨receiverResults.pktCount, senderResults.pktCount⟩)).use flow.sourceNode
            senderResults

def processFlows (flows : List Flow) : Option Progress :=
  flows.foldlM (processFlow getIpAddressForHostNumber endHostResults) .start

def processEndHostResults (flows : List Flow) : Option (Dict Int (Dict Int (List (Option CountDict)))) :=
  (processFlows getIpAddressForHostNumber endHostResults flows).map Progress.processedResults

/-! ### The records of a pair of hosts -/

def sentBy (sourceNode : Int) : List SenderResults :=
  match endHostResults.get? sourceNode with
  | none => []
  | some results => results.sender.values

def receivedBy (destinationNode : Int) : List ReceiverResults :=
  match endHostResults.get? destinationNode with
  | none => []
  | some results => results.receiver

/-- The records of the source that are addressed to the destination. -/
def addressed (sourceNode destinationNode : Int) : List SenderResults :=
  (sentBy endHostResults sourceNode).filter fun results =>
    results.dstIp = getIpAddressForHostNumber destinationNode

/-- The destination has the record that goes with a record of the source. -/
def arrived (sourceNode destinationNode : Int) (senderResults : SenderResults) : Bool :=
  (receivedBy endHostResults destinationNode).any fun results =>
    results.sourceIp = getIpAddressForHostNumber sourceNode ∧ results.sourcePort = senderResults.srcPort

/-- The number of records of the pair with a record at the destination. -/
def arrivedCount (sourceNode destinationNode : Int) : Nat :=
  (addressed getIpAddressForHostNumber endHostResults sourceNode destinationNode).countP
    (arrived getIpAddressForHostNumber endHostResults sourceNode destinationNode)

/-- The number of them before the first record without one. -/
def leadingCount (sourceNode destinationNode : Int) : Nat :=
  ((addressed getIpAddressForHostNumber endHostResults sourceNode destinationNode).takeWhile
    (arrived getIpAddressForHostNumber endHostResults sourceNode destinationNode)).length

end Model

def flowCount (flows : List Flow) (sourceNode destinationNode : Int) : Nat :=
  flows.countP fun flow => flow.sourceNode = sourceNode ∧ flow.destinationNode = destinationNode

/-- No two records of a host have one port, and no two hosts one address. -/
structure Recorded (getIpAddressForHostNumber : Int → Text) (endHostResults : Dict Int HostResults) : Prop where
  ports : ∀ sourceNode, ((sentBy endHostResults sourceNode).map SenderResults.srcPort).Nodup
  injective : Function.Injective getIpAddressForHostNumber

/-- The results that the flow needs are there: those of its source, and those of its destination if the source has a
record addressed to it. -/
def HasResults (getIpAddressForHostNumber : Int → Text) (endHostResults : Dict Int HostResults) (flow : Flow) : Prop :=
  (endHostResults.get? flow.sourceNode).isSome ∧
    ((endHostResults.get? flow.destinationNode).isSome ∨
      addressed getIpAddressForHostNumber endHostResults flow.sourceNode flow.destinationNode = [])

/-! ### What the loop gives a flow -/

namespace Progress

@[simp] theorem usedPorts_append (progress : Progress) (flow : Flow) (entry : Option CountDict) (sourceNode : Int) :
    (progress.append flow entry).usedPorts sourceNode = progress.usedPorts sourceNode := rfl

theorem entries_append (progress : Progress) (flow : Flow) (entry : Option CountDict)
    (sourceNode destinationNode : Int) :
    (progress.append flow entry).entries sourceNode destinationNode =
      if flow.sourceNode = sourceNode ∧ flow.destinationNode = destinationNode then
        progress.entries sourceNode destinationNode ++ [entry]
      else progress.entries sourceNode destinationNode := by
  rw [entries, append, Dict.get2?_set2]
  by_cases hpair : flow.sourceNode = sourceNode ∧ flow.destinationNode = destinationNode
  · rw [if_pos hpair, if_pos ⟨hpair.1.symm, hpair.2.symm⟩, hpair.1, hpair.2, Option.getD_some]
  · rw [if_neg hpair, if_neg (fun heq => hpair ⟨heq.1.symm, heq.2.symm⟩)]
    rfl

@[simp] theorem entries_use (progress : Progress) (sourceNode : Int) (senderResults : SenderResults)
    (sourceNode' destinationNode : Int) :
    (progress.use sourceNode senderResults).entries sourceNode' destinationNode =
      progress.entries sourceNode' destinationNode := rfl

theorem usedPorts_use (progress : Progress) (sourceNode : Int) (senderResults : SenderResults) (sourceNode' : Int) :
    (progress.use sourceNode senderResults).usedPorts sourceNode' =
      if sourceNode' = sourceNode then insert senderResults.srcPort (progress.usedPorts sourceNode)
      else progress.usedPorts sourceNode' := by
  rw [usedPorts, use, Dict.get?_set]
  split <;> rfl

end Progress

theorem flowCount_concat (flows : List Flow) (flow : Flow) (sourceNode destinationNode : Int) :
    flowCount (flows ++ [flow]) sourceNode destinationNode = flowCount flows sourceNode destinationNode +
      if flow.sourceNode = sourceNode ∧ flow.destinationNode = destinationNode then 1 else 0 := by
  rw [flowCount, List.countP_append, List.countP_singleton]
  simp only [decide_eq_true_eq]
  rfl

section Invariant

variable {getIpAddressForHostNumber : Int → Text} {endHostResults : Dict Int HostResults}

/-- What holds when some of the flows are done: a pair has used up as many of its leading records as it has had flows,
and its other flows have no count. -/
structure Inv (getIpAddressForHostNumber : Int → Text) (endHostResults : Dict Int HostResults) (done : List Flow)
    (progress : Progress) : Prop where
  length : ∀ sourceNode destinationNode,
    (progress.entries sourceNode destinationNode).length = flowCount done sourceNode destinationNode
  counted : ∀ sourceNode destinationNode, (progress.entries sourceNode destinationNode).countP Option.isSome =
    min (flowCount done sourceNode destinationNode)
      (leadingCount getIpAddressForHostNumber endHostResults sourceNode destinationNode)
  used : ∀ sourceNode destinationNode,
    ∀ results ∈ addressed getIpAddressForHostNumber endHostResults sourceNode destinationNode,
      (results.srcPort ∈ progress.usedPorts sourceNode ↔
        results ∈ (addressed getIpAddressForHostNumber endHostResults sourceNode destinationNode).take
          (min (flowCount done sourceNode destinationNode)
            (leadingCount getIpAddressForHostNumber endHostResults sourceNode destinationNode)))
  taken : ∀ entry ∈ progress.taken, entry.2.srcPort ∈ progress.usedPorts entry.1
  once : progress.taken.Nodup

theorem inv_start : Inv getIpAddressForHostNumber endHostResults [] .start where
  length := fun _ _ => rfl
  counted := fun _ _ => by simp [Progress.start, Progress.entries, flowCount]
  used := fun _ _ results _ => by simp [Progress.start, Progress.usedPorts, flowCount]
  taken := fun _ h => absurd h List.not_mem_nil
  once := List.nodup_nil

variable {flows done : List Flow} {progress : Progress}

theorem Recorded.nodup_addressed (h : Recorded getIpAddressForHostNumber endHostResults)
    (sourceNode destinationNode : Int) :
    (addressed getIpAddressForHostNumber endHostResults sourceNode destinationNode).Nodup :=
  (h.ports sourceNode).of_map.filter _

/-- The record that a flow is given: the first of its pair that has not been used. -/
theorem Inv.find?_sender (hinv : Inv getIpAddressForHostNumber endHostResults done progress)
    (h : Recorded getIpAddressForHostNumber endHostResults) (sourceNode destinationNode : Int) :
    (sentBy endHostResults sourceNode).find? (fun results =>
        results.dstIp = getIpAddressForHostNumber destinationNode ∧ results.srcPort ∉ progress.usedPorts sourceNode) =
      (addressed getIpAddressForHostNumber endHostResults sourceNode destinationNode)[
        min (flowCount done sourceNode destinationNode)
          (leadingCount getIpAddressForHostNumber endHostResults sourceNode destinationNode)]? := by
  have hused := hinv.used sourceNode destinationNode
  have hnodup := h.nodup_addressed sourceNode destinationNode
  have hfilter : (sentBy endHostResults sourceNode).find? (fun results =>
      results.dstIp = getIpAddressForHostNumber destinationNode ∧ results.srcPort ∉ progress.usedPorts sourceNode) =
        (addressed getIpAddressForHostNumber endHostResults sourceNode destinationNode).find? fun results =>
          results.srcPort ∉ progress.usedPorts sourceNode := by
    rw [addressed, List.find?_filter]
    simp only [Bool.decide_and, decide_eq_true_eq]
  rw [hfilter]
  generalize addressed getIpAddressForHostNumber endHostResults sourceNode destinationNode = records at hused hnodup ⊢
  generalize min (flowCount done sourceNode destinationNode)
    (leadingCount getIpAddressForHostNumber endHostResults sourceNode destinationNode) = count at hused ⊢
  rw [← List.head?_drop]
  have hsplit := List.take_append_drop count records
  have htaken : (records.take count).find? (fun results => results.srcPort ∉ progress.usedPorts sourceNode) = none := by
    apply List.find?_eq_none.mpr
    intro results hmem hunused
    exact of_decide_eq_true hunused ((hused results (List.mem_of_mem_take hmem)).mpr hmem)
  calc records.find? (fun results => results.srcPort ∉ progress.usedPorts sourceNode)
      = (records.take count ++ records.drop count).find? fun results =>
          results.srcPort ∉ progress.usedPorts sourceNode := by rw [hsplit]
    _ = (records.drop count).find? fun results => results.srcPort ∉ progress.usedPorts sourceNode := by
          rw [List.find?_append, htaken, Option.none_or]
    _ = (records.drop count).head? := by
          cases hdrop : records.drop count with
          | nil => rfl
          | cons next rest =>
              have hmem : next ∈ records := List.mem_of_mem_drop (hdrop ▸ List.mem_cons_self)
              have hnext : next ∉ records.take count := by
                intro htake
                rw [← hsplit, hdrop, List.nodup_append] at hnodup
                exact hnodup.2.2 next htake next List.mem_cons_self rfl
              have hunused : next.srcPort ∉ progress.usedPorts sourceNode := mt (hused next hmem).mp hnext
              rw [List.find?_cons, decide_eq_true hunused, List.head?_cons]

theorem Recorded.eq_of_srcPort (h : Recorded getIpAddressForHostNumber endHostResults) {sourceNode : Int}
    {results results' : SenderResults} (hresults : results ∈ sentBy endHostResults sourceNode)
    (hresults' : results' ∈ sentBy endHostResults sourceNode) (hport : results.srcPort = results'.srcPort) :
    results = results' :=
  List.inj_on_of_nodup_map (h.ports sourceNode) hresults hresults' hport

/-- A flow whose pair has used up its leading records. -/
theorem Inv.append_none (hinv : Inv getIpAddressForHostNumber endHostResults done progress) (flow : Flow)
    (hpast : leadingCount getIpAddressForHostNumber endHostResults flow.sourceNode flow.destinationNode ≤
      flowCount done flow.sourceNode flow.destinationNode) :
    Inv getIpAddressForHostNumber endHostResults (done ++ [flow]) (progress.append flow none) := by
  have hmin : ∀ sourceNode destinationNode, min (flowCount (done ++ [flow]) sourceNode destinationNode)
      (leadingCount getIpAddressForHostNumber endHostResults sourceNode destinationNode) =
        min (flowCount done sourceNode destinationNode)
          (leadingCount getIpAddressForHostNumber endHostResults sourceNode destinationNode) := by
    intro sourceNode destinationNode
    rw [flowCount_concat]
    split
    · rename_i hpair
      rw [hpair.1, hpair.2] at hpast
      omega
    · rfl
  refine ⟨fun sourceNode destinationNode => ?_, fun sourceNode destinationNode => ?_,
    fun sourceNode destinationNode results hresults => ?_, hinv.taken, hinv.once⟩
  · rw [Progress.entries_append, flowCount_concat, ← hinv.length]
    split <;> simp
  · rw [hmin, ← hinv.counted, Progress.entries_append]
    split <;> simp
  · rw [hmin, Progress.usedPorts_append]
    exact hinv.used sourceNode destinationNode results hresults

/-- The record after the leading ones that were used is a new one. -/
theorem Inv.notMem_taken (hinv : Inv getIpAddressForHostNumber endHostResults done progress)
    (h : Recorded getIpAddressForHostNumber endHostResults) {sourceNode destinationNode : Int}
    {senderResults : SenderResults}
    (hlead : flowCount done sourceNode destinationNode <
      leadingCount getIpAddressForHostNumber endHostResults sourceNode destinationNode)
    (hnext : (addressed getIpAddressForHostNumber endHostResults sourceNode destinationNode)[
      flowCount done sourceNode destinationNode]? = some senderResults) :
    (sourceNode, senderResults) ∉ progress.taken := by
  intro hold
  have htake := (hinv.used _ _ _ (List.mem_of_getElem? hnext)).mp (hinv.taken _ hold)
  rw [min_eq_left hlead.le] at htake
  obtain ⟨i, hi, hget⟩ := List.mem_take_iff_getElem.mp htake
  obtain ⟨hlt, hget'⟩ := List.getElem?_eq_some_iff.mp hnext
  have hsame := (h.nodup_addressed _ _).getElem_inj_iff.mp (hget.trans hget'.symm)
  omega

/-- The port of that record is the one that the records of a pair see as used next. -/
theorem Inv.used_append_some (hinv : Inv getIpAddressForHostNumber endHostResults done progress)
    (h : Recorded getIpAddressForHostNumber endHostResults) {flow : Flow} {senderResults : SenderResults}
    (hlead : flowCount done flow.sourceNode flow.destinationNode <
      leadingCount getIpAddressForHostNumber endHostResults flow.sourceNode flow.destinationNode)
    (hnext : (addressed getIpAddressForHostNumber endHostResults flow.sourceNode flow.destinationNode)[
      flowCount done flow.sourceNode flow.destinationNode]? = some senderResults) {sourceNode destinationNode : Int}
    {results : SenderResults}
    (hresults : results ∈ addressed getIpAddressForHostNumber endHostResults sourceNode destinationNode)
    (entry : Option CountDict) :
    results.srcPort ∈ ((progress.append flow entry).use flow.sourceNode senderResults).usedPorts sourceNode ↔
      results ∈ (addressed getIpAddressForHostNumber endHostResults sourceNode destinationNode).take
        (min (flowCount (done ++ [flow]) sourceNode destinationNode)
          (leadingCount getIpAddressForHostNumber endHostResults sourceNode destinationNode)) := by
  rw [Progress.usedPorts_use, flowCount_concat]
  have hused := hinv.used sourceNode destinationNode results hresults
  obtain ⟨hsent, hdst⟩ := List.mem_filter.mp (List.mem_of_getElem? hnext)
  obtain ⟨hsent', hdst'⟩ := List.mem_filter.mp hresults
  by_cases hsource : sourceNode = flow.sourceNode
  · subst hsource
    have hport : results.srcPort = senderResults.srcPort ↔ results = senderResults :=
      ⟨h.eq_of_srcPort hsent' hsent, fun heq => heq ▸ rfl⟩
    rw [if_pos rfl, Progress.usedPorts_append, Finset.mem_insert, hport, hused]
    by_cases hdestination : flow.destinationNode = destinationNode
    · subst hdestination
      rw [if_pos ⟨rfl, rfl⟩, min_eq_left hlead.le, min_eq_left (Nat.succ_le_of_lt hlead),
        List.take_add_one, hnext, Option.toList_some, List.mem_append, List.mem_singleton]
      exact or_comm
    · -- The record is addressed to one host only.
      rw [if_neg fun hpair => hdestination hpair.2, Nat.add_zero]
      refine or_iff_right fun heq => hdestination (h.injective ?_)
      rw [← of_decide_eq_true hdst, ← of_decide_eq_true hdst', heq]
  · rw [if_neg hsource, if_neg fun hpair => hsource hpair.1.symm]
    exact hused

/-- A flow that is given the next of the leading records of its pair. -/
theorem Inv.append_some (hinv : Inv getIpAddressForHostNumber endHostResults done progress)
    (h : Recorded getIpAddressForHostNumber endHostResults) {flow : Flow} {senderResults : SenderResults}
    (hlead : flowCount done flow.sourceNode flow.destinationNode <
      leadingCount getIpAddressForHostNumber endHostResults flow.sourceNode flow.destinationNode)
    (hnext : (addressed getIpAddressForHostNumber endHostResults flow.sourceNode flow.destinationNode)[
      flowCount done flow.sourceNode flow.destinationNode]? = some senderResults) (counts : CountDict) :
    Inv getIpAddressForHostNumber endHostResults (done ++ [flow])
      ((progress.append flow (some counts)).use flow.sourceNode senderResults) := by
  refine ⟨fun sourceNode destinationNode => ?_, fun sourceNode destinationNode => ?_,
    fun sourceNode destinationNode results hresults => hinv.used_append_some h hlead hnext hresults _,
    fun entry hentry => ?_, ?_⟩
  · rw [Progress.entries_use, Progress.entries_append, flowCount_concat, ← hinv.length]
    split <;> simp
  · rw [Progress.entries_use, Progress.entries_append, flowCount_concat]
    have hcounted := hinv.counted sourceNode destinationNode
    split
    · rename_i hpair
      rw [hpair.1, hpair.2] at hlead
      rw [List.countP_append, hcounted, List.countP_singleton, Option.isSome_some, if_pos rfl]
      omega
    · exact hcounted
  · rw [Progress.usedPorts_use]
    rcases List.mem_append.mp hentry with hold | hnew
    · have htaken := hinv.taken entry hold
      split
      · rename_i hsource
        exact Finset.mem_insert_of_mem (hsource ▸ htaken)
      · exact htaken
    · rw [List.mem_singleton.mp hnew, if_pos rfl]
      exact Finset.mem_insert_self _ _
  · show (progress.taken ++ [(flow.sourceNode, senderResults)]).Nodup
    rw [← List.concat_eq_append]
    exact hinv.once.concat (hinv.notMem_taken h hlead hnext)

/-- A flow of a host without results ends the loop, as does one to such a host if there is a record addressed to it. -/
theorem Inv.hasResults (hinv : Inv getIpAddressForHostNumber endHostResults done progress)
    (h : Recorded getIpAddressForHostNumber endHostResults) {flow : Flow} {progress' : Progress}
    (hrun : processFlow getIpAddressForHostNumber endHostResults progress flow = some progress') :
    HasResults getIpAddressForHostNumber endHostResults flow := by
  rw [processFlow, Option.bind_eq_bind, Option.bind_eq_some_iff] at hrun
  obtain ⟨source, hsource, hrun⟩ := hrun
  refine ⟨Option.isSome_iff_exists.mpr ⟨source, hsource⟩, ?_⟩
  cases hdestination : endHostResults.get? flow.destinationNode with
  | some destination => exact Or.inl rfl
  | none =>
      refine Or.inr ?_
      have hlead : leadingCount getIpAddressForHostNumber endHostResults flow.sourceNode flow.destinationNode = 0 := by
        have harrived : arrived getIpAddressForHostNumber endHostResults flow.sourceNode flow.destinationNode =
            fun _ => false := by
          funext senderResults
          rw [arrived, receivedBy, hdestination, List.any_nil]
        rw [leadingCount, harrived]
        cases addressed getIpAddressForHostNumber endHostResults flow.sourceNode flow.destinationNode <;> rfl
      have hsent : source.sender.values = sentBy endHostResults flow.sourceNode := by rw [sentBy, hsource]
      rw [hsent, hinv.find?_sender h, hlead, Nat.min_zero] at hrun
      cases hfirst : (addressed getIpAddressForHostNumber endHostResults flow.sourceNode flow.destinationNode)[0]? with
      | none => exact List.eq_nil_of_length_eq_zero (Nat.le_zero.mp (List.getElem?_eq_none_iff.mp hfirst))
      | some senderResults =>
          rw [hfirst, hdestination] at hrun
          exact absurd hrun (by simp)

/-- One turn of the loop. -/
theorem Inv.processFlow (hinv : Inv getIpAddressForHostNumber endHostResults done progress)
    (h : Recorded getIpAddressForHostNumber endHostResults) {flow : Flow}
    (hresults : HasResults getIpAddressForHostNumber endHostResults flow) :
    ∃ progress', processFlow getIpAddressForHostNumber endHostResults progress flow = some progress' ∧
      Inv getIpAddressForHostNumber endHostResults (done ++ [flow]) progress' := by
  obtain ⟨source, hsource⟩ := Option.isSome_iff_exists.mp hresults.1
  have hsent : source.sender.values = sentBy endHostResults flow.sourceNode := by rw [sentBy, hsource]
  obtain ⟨hbefore, hafter⟩ := getElem?_length_takeWhile
    (arrived getIpAddressForHostNumber endHostResults flow.sourceNode flow.destinationNode)
    (addressed getIpAddressForHostNumber endHostResults flow.sourceNode flow.destinationNode)
  have hfind := hinv.find?_sender h flow.sourceNode flow.destinationNode
  have hdestination : ∀ senderResults ∈ addressed getIpAddressForHostNumber endHostResults flow.sourceNode
      flow.destinationNode, ∃ destination, endHostResults.get? flow.destinationNode = some destination ∧
        destination.receiver = receivedBy endHostResults flow.destinationNode := by
    intro senderResults hmem
    rcases hresults.2 with hsome | hempty
    · obtain ⟨destination, hdestination⟩ := Option.isSome_iff_exists.mp hsome
      exact ⟨destination, hdestination, by rw [receivedBy, hdestination]⟩
    · exact absurd (hempty ▸ hmem) List.not_mem_nil
  rw [EndHost.processFlow, hsource, Option.bind_eq_bind, Option.bind_some, hsent, hfind]
  rcases Nat.lt_or_ge (flowCount done flow.sourceNode flow.destinationNode)
    (leadingCount getIpAddressForHostNumber endHostResults flow.sourceNode flow.destinationNode) with hlead | hpast
  · obtain ⟨senderResults, hnext, harrived⟩ := hbefore _ hlead
    obtain ⟨destination, hget, hreceived⟩ := hdestination senderResults (List.mem_of_getElem? hnext)
    obtain ⟨receiverResults, hreceiver⟩ := Option.isSome_iff_exists.mp
      ((List.find?_isSome.trans List.any_eq_true.symm).mpr harrived)
    rw [min_eq_left hlead.le, hnext, hget]
    simp only [Option.bind_some, hreceived, hreceiver]
    exact ⟨_, rfl, hinv.append_some h hlead hnext _⟩
  · rw [min_eq_right hpast]
    cases hnext : (addressed getIpAddressForHostNumber endHostResults flow.sourceNode flow.destinationNode)[
      leadingCount getIpAddressForHostNumber endHostResults flow.sourceNode flow.destinationNode]? with
    | none => exact ⟨_, rfl, hinv.append_none flow hpast⟩
    | some senderResults =>
        obtain ⟨destination, hget, hreceived⟩ := hdestination senderResults (List.mem_of_getElem? hnext)
        have hreceiver : (receivedBy endHostResults flow.destinationNode).find? (fun results =>
            results.sourceIp = getIpAddressForHostNumber flow.sourceNode ∧
              results.sourcePort = senderResults.srcPort) = none :=
          List.find?_eq_none.mpr (List.any_eq_false.mp (hafter senderResults hnext))
        rw [hget]
        simp only [Option.bind_some, hreceived, hreceiver]
        exact ⟨_, rfl, hinv.append_none flow hpast⟩

/-- The whole loop. -/
theorem exists_processFlows (h : Recorded getIpAddressForHostNumber endHostResults)
    (hresults : ∀ flow ∈ flows, HasResults getIpAddressForHostNumber endHostResults flow) :
    ∃ final, processFlows getIpAddressForHostNumber endHostResults flows = some final ∧
      Inv getIpAddressForHostNumber endHostResults flows final := by
  refine foldlM_total _ flows .start (Inv getIpAddressForHostNumber endHostResults) inv_start ?_
  intro done flow rest progress hflows hinv
  exact hinv.processFlow h (hresults flow (hflows ▸ List.mem_append_right _ List.mem_cons_self))

theorem hasResults_of_processFlows (h : Recorded getIpAddressForHostNumber endHostResults) {final : Progress}
    (hrun : processFlows getIpAddressForHostNumber endHostResults flows = some final) :
    ∀ flow ∈ flows, HasResults getIpAddressForHostNumber endHostResults flow := by
  suffices hend : Inv getIpAddressForHostNumber endHostResults flows final ∧
      ∀ flow ∈ flows, HasResults getIpAddressForHostNumber endHostResults flow from hend.2
  refine foldlM_partial (fun done progress => Inv getIpAddressForHostNumber endHostResults done progress ∧
    ∀ flow ∈ done, HasResults getIpAddressForHostNumber endHostResults flow) ⟨inv_start, by simp⟩ ?_ hrun
  intro done flow rest progress progress' _ hinv hturn
  have hflow := hinv.1.hasResults h hturn
  obtain ⟨next, hnext, hkeeps⟩ := hinv.1.processFlow h hflow
  rw [hturn, Option.some.injEq] at hnext
  refine ⟨hnext ▸ hkeeps, fun flow' hmem => ?_⟩
  rcases List.mem_append.mp hmem with hold | hnew
  · exact hinv.2 flow' hold
  · exact List.mem_singleton.mp hnew ▸ hflow

end Invariant

theorem leadingCount_le_arrivedCount (getIpAddressForHostNumber : Int → Text) (endHostResults : Dict Int HostResults)
    (sourceNode destinationNode : Int) :
    leadingCount getIpAddressForHostNumber endHostResults sourceNode destinationNode ≤
      arrivedCount getIpAddressForHostNumber endHostResults sourceNode destinationNode := by
  unfold leadingCount arrivedCount
  generalize hp : arrived getIpAddressForHostNumber endHostResults sourceNode destinationNode = p
  generalize addressed getIpAddressForHostNumber endHostResults sourceNode destinationNode = records
  calc (records.takeWhile p).length
      = (records.takeWhile p).countP p :=
          (List.countP_eq_length.mpr fun _ hmem => List.mem_takeWhile_imp hmem).symm
    _ ≤ records.countP p := (List.takeWhile_sublist p).countP_le

/-- Every record is used for one flow, and as many flows of a pair get counts as there are records of the pair on both
sides, exactly when the results that the flows need are there and no pair has more flows than it has records before the
first one without a record at the destination, unless there are no others after it. -/
theorem flows_counted_iff {getIpAddressForHostNumber : Int → Text} {endHostResults : Dict Int HostResults}
    (h : Recorded getIpAddressForHostNumber endHostResults) (flows : List Flow) :
    (∃ final, processFlows getIpAddressForHostNumber endHostResults flows = some final ∧
      processEndHostResults getIpAddressForHostNumber endHostResults flows = some final.processedResults ∧
      final.taken.Nodup ∧
      ∀ sourceNode destinationNode,
        (final.entries sourceNode destinationNode).length = flowCount flows sourceNode destinationNode ∧
        (final.entries sourceNode destinationNode).countP Option.isSome =
          min (flowCount flows sourceNode destinationNode)
            (arrivedCount getIpAddressForHostNumber endHostResults sourceNode destinationNode)) ↔
      (∀ flow ∈ flows, HasResults getIpAddressForHostNumber endHostResults flow) ∧
        ∀ sourceNode destinationNode,
          flowCount flows sourceNode destinationNode ≤
            leadingCount getIpAddressForHostNumber endHostResults sourceNode destinationNode ∨
          leadingCount getIpAddressForHostNumber endHostResults sourceNode destinationNode =
            arrivedCount getIpAddressForHostNumber endHostResults sourceNode destinationNode := by
  constructor
  · rintro ⟨final, hrun, -, -, hcounts⟩
    have hresults := hasResults_of_processFlows h hrun
    obtain ⟨final', hrun', hinv⟩ := exists_processFlows h hresults
    rw [hrun, Option.some.injEq] at hrun'
    subst hrun'
    refine ⟨hresults, fun sourceNode destinationNode => ?_⟩
    have hcounted := hinv.counted sourceNode destinationNode
    rw [(hcounts sourceNode destinationNode).2] at hcounted
    have hle := leadingCount_le_arrivedCount getIpAddressForHostNumber endHostResults sourceNode destinationNode
    omega
  · rintro ⟨hresults, hleading⟩
    obtain ⟨final, hrun, hinv⟩ := exists_processFlows h hresults
    refine ⟨final, hrun, by rw [processEndHostResults, hrun, Option.map_some], hinv.once,
      fun sourceNode destinationNode => ⟨hinv.length sourceNode destinationNode, ?_⟩⟩
    rw [hinv.counted]
    have hle := leadingCount_le_arrivedCount getIpAddressForHostNumber endHostResults sourceNode destinationNode
    rcases hleading sourceNode destinationNode with hfew | hall
    · rw [min_eq_left hfew, min_eq_left (hfew.trans hle)]
    · rw [hall]

/-- Host 1 has sent to host 2 from two ports, and only what was sent from the given one has been received. -/
def lossyResults (receivedPort : Int) : Dict Int HostResults :=
  .ofList [
    (1, ⟨[], .ofList [(0, ⟨"10.0.0.2".toList, 5000, 10⟩), (1, ⟨"10.0.0.2".toList, 5001, 12⟩)]⟩),
    (2, ⟨[⟨"10.0.0.1".toList, receivedPort, 9⟩], .empty⟩)]

def hostAddress (hostNumber : Int) : Text := "10.0.0.".toList ++ formatD hostNumber

def twoFlows : List Flow := [⟨1, 2⟩, ⟨1, 2⟩]

theorem hostAddress_injective : Function.Injective hostAddress := by
  intro hostNumber hostNumber' h
  have hformat : formatD hostNumber = formatD hostNumber' := List.append_cancel_left h
  have hint := int_formatD hostNumber
  rw [hformat, int_formatD, Option.some.injEq] at hint
  exact hint.symm

theorem sentBy_lossyResults (receivedPort sourceNode : Int) :
    sentBy (lossyResults receivedPort) sourceNode =
      if sourceNode = 1 then [⟨"10.0.0.2".toList, 5000, 10⟩, ⟨"10.0.0.2".toList, 5001, 12⟩] else [] := by
  by_cases hone : sourceNode = 1
  · subst hone
    rfl
  · rw [if_neg hone]
    by_cases htwo : sourceNode = 2
    · subst htwo
      rfl
    · simp [sentBy, lossyResults, Dict.ofList, hone, htwo, Dict.get?_set]

theorem recorded_lossyResults (receivedPort : Int) : Recorded hostAddress (lossyResults receivedPort) where
  ports := fun sourceNode => by
    rw [sentBy_lossyResults]
    split <;> simp
  injective := hostAddress_injective

theorem hasResults_twoFlows (receivedPort : Int) :
    ∀ flow ∈ twoFlows, HasResults hostAddress (lossyResults receivedPort) flow := by
  intro flow hflow
  simp only [twoFlows, List.mem_cons, List.not_mem_nil, or_false, or_self] at hflow
  subst hflow
  exact ⟨rfl, Or.inl rfl⟩

theorem dstIp_lossyResults {receivedPort sourceNode : Int} {results : SenderResults}
    (hresults : results ∈ sentBy (lossyResults receivedPort) sourceNode) :
    sourceNode = 1 ∧ results.dstIp = hostAddress 2 := by
  rw [sentBy_lossyResults] at hresults
  split at hresults
  · rename_i hone
    refine ⟨hone, ?_⟩
    rcases List.mem_pair.mp hresults with rfl | rfl <;> rfl
  · exact absurd hresults List.not_mem_nil

/-- Only the pair of hosts 1 and 2 has records. -/
theorem addressed_lossyResults {receivedPort sourceNode destinationNode : Int}
    (hpair : ¬ (sourceNode = 1 ∧ destinationNode = 2)) :
    addressed hostAddress (lossyResults receivedPort) sourceNode destinationNode = [] := by
  rw [addressed, List.filter_eq_nil_iff]
  intro results hresults hdst
  obtain ⟨hone, htwo⟩ := dstIp_lossyResults hresults
  exact hpair ⟨hone, hostAddress_injective ((of_decide_eq_true hdst).symm.trans htwo)⟩

theorem flows_counted_iff_twoFlows :
    ∃ final, processFlows hostAddress (lossyResults 5000) twoFlows = some final ∧
      processEndHostResults hostAddress (lossyResults 5000) twoFlows = some final.processedResults ∧
      final.taken.Nodup ∧
      ∀ sourceNode destinationNode,
        (final.entries sourceNode destinationNode).length = flowCount twoFlows sourceNode destinationNode ∧
        (final.entries sourceNode destinationNode).countP Option.isSome =
          min (flowCount twoFlows sourceNode destinationNode)
            (arrivedCount hostAddress (lossyResults 5000) sourceNode destinationNode) := by
  refine (flows_counted_iff (recorded_lossyResults 5000) twoFlows).mpr ⟨hasResults_twoFlows 5000, ?_⟩
  intro sourceNode destinationNode
  refine Or.inr ?_
  by_cases hpair : sourceNode = 1 ∧ destinationNode = 2
  · rw [hpair.1, hpair.2]
    decide +kernel
  · rw [leadingCount, arrivedCount, addressed_lossyResults hpair]
    rfl

/-- The record from port 5000 is given to both flows, and the one from port 5001 to none. -/
theorem received_record_not_counted :
    Recorded hostAddress (lossyResults 5001) ∧
      processFlows hostAddress (lossyResults 5001) twoFlows ≠ none ∧
      ∀ final, processFlows hostAddress (lossyResults 5001) twoFlows = some final →
        (final.entries 1 2).countP Option.isSome ≠
          min (flowCount twoFlows 1 2) (arrivedCount hostAddress (lossyResults 5001) 1 2) := by
  have hentries : (processFlows hostAddress (lossyResults 5001) twoFlows).map (fun final => final.entries 1 2) =
      some [none, none] := by decide +kernel
  have harrived : arrivedCount hostAddress (lossyResults 5001) 1 2 = 1 := by decide +kernel
  refine ⟨recorded_lossyResults 5001, fun hnone => ?_, fun final hrun => ?_⟩
  · rw [hnone] at hentries
    cases hentries
  · rw [hrun, Option.map_some, Option.some.injEq] at hentries
    rw [hentries, harrived]
    decide

end OfTestbed.EndHost
