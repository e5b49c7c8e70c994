import OfTestbed.LibDict
import OfTestbed.LibLoop
import OfTestbed.LibText

/-!
The senders of a Mininet host: `MininetHost` in `host_rewrite.py`, which splits its flows into two groups and starts a
traffic generator for each, and `traffic_gen.py`, which is the generator. The two programs meet in file names. The host
numbers the generators; a generator reads its number out of the name of its argument file, and on a signal writes its
records to a file that has the number in its name. `none` is an exception. What `json` and `pickle` write they read
back.
-/

namespace OfTestbed.MininetHost

open Lib

/-! ### Traffic models -/

inductive TrafficModels where
  | uniform
  | truncNorm
  | randomSampling
  | truncNormSymmetric
  | gamma
  | precomputed
  deriving DecidableEq

def TrafficModels.fromStr (stringRep : Text) : Option TrafficModels :=
  let stringRep := stringRep.map Char.toLower
  if stringRep = "uniform".toList then some .uniform
  else if stringRep = "trunc_norm".toList then some .truncNorm
  else if stringRep = "random_sampling".toList then some .randomSampling
  else if stringRep = "trunc_norm_symmetric".toList then some .truncNormSymmetric
  else if stringRep = "gamma".toList then some .gamma
  else if stringRep = "precomputed".toList then some .precomputed
  else none

/-- The dictionary `client_args` of a flow; the keys that one of the two ways to configure a flow leaves out are
optional. -/
structure ClientArgs where
  destPort : Int
  destAddr : Text
  probMat : List ℚ
  txRate : Option ℚ
  variance : Option ℚ
  transmitRates : Option (List ℚ)
  trafficModel : Text
  packetLen : Int
  srcHost : Int
  timeSlice : ℚ
  tagValue : List Int
  sourceAddr : Option Text
  flowId : Option Int

structure FlowParameters where
  destPort : Int
  destAddr : Text
  probMat : List ℚ
  txRate : ℚ
  variance : ℚ
  trafficModel : TrafficModels
  packetLen : Int
  srcHost : Int
  timeSlice : ℚ
  tagValue : List Int
  transmitRates : Option (List ℚ)
  sourceAddr : Option Text
  flowId : Int

/-- `FlowParameters(**d)`, with the name of the traffic model read before. -/
def FlowParameters.ofArgs (args : ClientArgs) : Option FlowParameters := do
  let trafficModel ← TrafficModels.fromStr args.trafficModel
  return {
    destPort := args.destPort
    destAddr := args.destAddr
    probMat := args.probMat
    txRate := args.txRate.getD 131072
    variance := args.variance.getD 131072
    trafficModel := trafficModel
    packetLen := args.packetLen
    srcHost := args.srcHost
    timeSlice := args.timeSlice
    tagValue := args.tagValue
    transmitRates := args.transmitRates
    sourceAddr := args.sourceAddr
    flowId := args.flowId.getD 0 }

/-- Whether `create_distribution` succeeds, and for given rates the first draw: nothing is divided by zero, no root is
taken of a negative number, and there are rates to choose from. -/
def FlowParameters.hasDistribution (fp : FlowParameters) : Bool :=
  match fp.trafficModel with
  | .truncNorm | .randomSampling | .truncNormSymmetric => fp.variance ≠ 0
  | .uniform => 0 ≤ fp.variance
  | .gamma => fp.txRate ≠ 0 ∧ fp.variance ≠ 0
  | .precomputed => fp.transmitRates.any fun rates => !rates.isEmpty

/-! ### The host -/

structure Host where
  hostId : Int
  hostIp : Text
  configuredFlows : List ClientArgs

namespace Host

def configureFlow (host : Host) (txRate txRateStdDev : ℚ) (trafficModel destIp : Text) (destPort : Int)
    (kMatrix : List ℚ) (timeSliceDuration : ℚ) (tagValues : List Int) (packetLength : Int) : Host :=
  { host with
    configuredFlows := host.configuredFlows ++ [{
      destPort := destPort
      destAddr := destIp
      probMat := kMatrix
      txRate := some txRate
      variance := some txRateStdDev
      transmitRates := none
      trafficModel := trafficModel
      packetLen := packetLength
      srcHost := host.hostId
      timeSlice := timeSliceDuration
      tagValue := tagValues
      sourceAddr := some host.hostIp
      flowId := none }] }

def configureFlowWithPrecomputedTransmitRates (host : Host) (rateList : List ℚ) (destinationIp : Text)
    (destinationPortNumber : Int) (kMatrix : List ℚ) (hostNumber : Int) (timeSliceDuration : ℚ) (tagValues : List Int)
    (flowId packetLength : Int) : Host :=
  { host with
    configuredFlows := host.configuredFlows ++ [{
      destPort := destinationPortNumber
      destAddr := destinationIp
      probMat := kMatrix
      txRate := none
      variance := none
      transmitRates := some rateList
      trafficModel := "precomputed".toList
      packetLen := packetLength
      srcHost := hostNumber
      timeSlice := timeSliceDuration
      tagValue := tagValues
      sourceAddr := none
      flowId := some flowId }] }

end Host

def argsFilePath (hostId : Int) (flowIdx : Nat) : Text :=
  "/tmp/host-".toList ++ formatD hostId ++ "-instance-".toList ++ formatD flowIdx ++
    "-traffic-gen-args.json".toList

def senderFilePath (hostId : Int) (instanceId : Int) : Text :=
  "/tmp/sender_".toList ++ formatD hostId ++ "-".toList ++ formatD instanceId ++ ".p".toList

/-- A generator that is started, with the file it is given. -/
structure Process where
  argsFile : Text
  argumentDicts : List ClientArgs

namespace Host

def flowGroups (host : Host) : List (List ClientArgs) :=
  let flowCount := host.configuredFlows.length / 2
  [host.configuredFlows.take flowCount, host.configuredFlows.drop flowCount]

/-- The generators that are started, the list `client_procs`. -/
def startTrafficGenerationClient (host : Host) : List Process :=
  if host.configuredFlows.length = 0 then []
  else host.flowGroups.zipIdx.map fun group => ⟨argsFilePath host.hostId group.2, group.1⟩

end Host

/-! ### The generator -/

structure Record where
  pktCount : Nat
  srcPort : Nat
  srcHost : Int
  dstIp : Text
  flowId : Int
  deriving DecidableEq

/-- What the generators meet when they run: the packets that each has sent of each of its flows when it is stopped, the
ports of its sockets, and whether a socket, a draw or the choice of a tag raises before. -/
structure Environment where
  pktCount : Nat → Nat → Nat
  srcPort : Nat → Nat → Nat
  raises : Nat → Bool

/-- `INSTANCE_ID`, the number after the third hyphen. -/
def instanceIdOf (argsFile : Text) : Option Int := do int (← (argsFile.splitOn '-')[3]?)

def getArgs (process : Process) : Option (Int × Dict Nat FlowParameters) := do
  let instanceId ← instanceIdOf process.argsFile
  let params ← process.argumentDicts.mapM FlowParameters.ofArgs
  return (instanceId, Dict.ofList (params.zipIdx.map fun e => (e.2, e.1)))

/-- `generate_traffic` runs until the signal, unless it raises; the loop reads `flow_params[0]`. -/
def generateTraffic (raises : Bool) (flowParams : Dict Nat FlowParameters) : Option Unit := do
  guard (flowParams.values.all FlowParameters.hasDistribution)
  guard (flowParams.get? 0).isSome
  guard !raises

/-- `flow_info[flow_num]`. -/
def flowInfoOf (env : Environment) (index flowNum : Nat) (fp : FlowParameters) : Record :=
  ⟨env.pktCount index flowNum, env.srcPort index flowNum, fp.srcHost, fp.destAddr, fp.flowId⟩

/-- The file that the handler of the signal writes. The host is that of the last flow, `None` without flows. -/
def handleSigInt (env : Environment) (index : Nat) (instanceId : Int) (flowParams : Dict Nat FlowParameters) :
    Text × Dict Nat Record :=
  let flowInfo := Dict.ofList (flowParams.entries.map fun e => (e.1, flowInfoOf env index e.1 e.2))
  match flowParams.values.getLast? with
  | none => ("/tmp/sender_None-".toList ++ formatD instanceId ++ ".p".toList, flowInfo)
  | some fp => (senderFilePath fp.srcHost instanceId, flowInfo)

/-- A generator from its start to the signal, with the file that it leaves. -/
def runInstance (env : Environment) (index : Nat) (process : Process) : Option (Text × Dict Nat Record) := do
  let args ← getArgs process
  generateTraffic (env.raises index) args.2
  return handleSigInt env index args.1 args.2

/-- The files in `/tmp`. -/
abbrev Files := Dict Text (Dict Nat Record)

/-- The files after all generators have been stopped. -/
def stopTrafficGenerationClient (env : Environment) (clientProcs : List Process) (files : Files) : Files :=
  clientProcs.zipIdx.foldl (fun files proc =>
    match runInstance env proc.2 proc.1 with
    | none => files
    | some (path, flowInfo) => files.set path flowInfo) files

/-- The results of all generators, numbered anew. -/
def getSenderResults (hostId : Int) (clientProcs : List Process) (files : Files) : Option (Dict Nat Record) := do
  let senderResults ← clientProcs.zipIdx.mapM fun proc => files.get? (senderFilePath hostId proc.2)
  let final := (senderResults.flatMap Dict.values).foldl
    (fun state results => (state.1.set state.2 results, state.2 + 1)) ((Dict.empty : Dict Nat Record), 0)
  return final.1

/-! ### What is expected -/

/-- The record of a flow, which is number `num` of the generator `index`. -/
def recordOf (env : Environment) (index num : Nat) (args : ClientArgs) : Record :=
  ⟨env.pktCount index num, env.srcPort index num, args.srcHost, args.destAddr, args.flowId.getD 0⟩

/-- A known traffic model, with parameters it can be made from. -/
def ClientArgs.sendable (args : ClientArgs) : Bool := (FlowParameters.ofArgs args).any FlowParameters.hasDistribution

namespace Host

/-- The record of the flow at position `i`. -/
def recordAt (host : Host) (env : Environment) (i : Nat) (args : ClientArgs) : Record :=
  let flowCount := host.configuredFlows.length / 2
  if i < flowCount then recordOf env 0 i args else recordOf env 1 (i - flowCount) args

/-- The groups make up the flows and none is empty, every generator reads its own number, and the results are those of
the flows in their order. -/
structure Delivers (host : Host) (env : Environment) (files : Files) : Prop where
  partition : host.flowGroups.flatten = host.configuredFlows
  nonempty : ∀ proc ∈ host.startTrafficGenerationClient, proc.argumentDicts ≠ []
  instanceId : ∀ (index : Nat) proc, host.startTrafficGenerationClient[index]? = some proc →
    instanceIdOf proc.argsFile = some (index : Int)
  results : ∃ results, getSenderResults host.hostId host.startTrafficGenerationClient
      (stopTrafficGenerationClient env host.startTrafficGenerationClient files) = some results ∧
    results.entries = host.configuredFlows.zipIdx.map fun flow => (flow.2, host.recordAt env flow.2 flow.1)

/-- There are flows for both generators, and nothing ends a generator before the signal. -/
structure KeepsSending (host : Host) (env : Environment) : Prop where
  two_le : 2 ≤ host.configuredFlows.length
  sendable : ∀ args ∈ host.configuredFlows, args.sendable = true
  undisturbed : env.raises 0 = false ∧ env.raises 1 = false

end Host

/-! ### File names -/

theorem digitChar_ne_hyphen {digit : Nat} (h : digit < 10) : digit.digitChar ≠ '-' := by
  interval_cases digit <;> decide

theorem hyphen_notMem_formatD {n : Int} (h : 0 ≤ n) : '-' ∉ formatD n := by
  obtain ⟨digits, hdigits, -, hlt, -⟩ := exists_digits n.natAbs
  rw [formatD, if_neg (not_lt.mpr h), List.nil_append, hdigits, List.mem_map]
  rintro ⟨digit, hdigit, heq⟩
  exact digitChar_ne_hyphen (hlt digit hdigit) heq

/-- The parts between the hyphens of the name of an argument file. -/
def argsFileParts (hostId flowIdx : Text) : List Text :=
  ["/tmp/host".toList, hostId, "instance".toList, flowIdx, "traffic".toList, "gen".toList, "args.json".toList]

theorem argsFile_eq_intercalate (hostId flowIdx : Text) :
    "/tmp/host-".toList ++ hostId ++ "-instance-".toList ++ flowIdx ++ "-traffic-gen-args.json".toList =
      ['-'].intercalate (argsFileParts hostId flowIdx) := by
  have hstart : "/tmp/host-".toList = "/tmp/host".toList ++ ['-'] := rfl
  have hmiddle : "-instance-".toList = ['-'] ++ "instance".toList ++ ['-'] := rfl
  have hend : "-traffic-gen-args.json".toList =
      ['-'] ++ "traffic".toList ++ ['-'] ++ "gen".toList ++ ['-'] ++ "args.json".toList := rfl
  rw [hstart, hmiddle, hend]
  simp only [argsFileParts, List.intercalate_cons_cons, List.intercalate_singleton, List.append_assoc]

theorem splitOn_argsFile {hostId flowIdx : Text} (hhost : '-' ∉ hostId) (hflow : '-' ∉ flowIdx) :
    ("/tmp/host-".toList ++ hostId ++ "-instance-".toList ++ flowIdx ++ "-traffic-gen-args.json".toList).splitOn '-' =
      argsFileParts hostId flowIdx := by
  rw [argsFile_eq_intercalate]
  refine List.splitOn_intercalate '-' ?_ (List.cons_ne_nil _ _)
  simp only [argsFileParts, List.forall_mem_cons]
  exact ⟨by decide, hhost, by decide, hflow, by decide, by decide, by decide, List.forall_mem_nil _⟩

theorem instanceIdOf_argsFilePath {hostId : Int} (h : 0 ≤ hostId) (flowIdx : Nat) :
    instanceIdOf (argsFilePath hostId flowIdx) = some (flowIdx : Int) := by
  have hparts : (argsFilePath hostId flowIdx).splitOn '-' = argsFileParts (formatD hostId) (formatD flowIdx) :=
    splitOn_argsFile (hyphen_notMem_formatD h) (hyphen_notMem_formatD (Int.natCast_nonneg flowIdx))
  have hget : ∀ a b : Text, (argsFileParts a b)[3]? = some b := fun _ _ => rfl
  unfold instanceIdOf
  rw [hparts, hget, Option.bind_eq_bind, Option.bind_some, int_formatD]

theorem senderFilePath_inj {hostId instanceId instanceId' : Int}
    (h : senderFilePath hostId instanceId = senderFilePath hostId instanceId') : instanceId = instanceId' := by
  have hformat : formatD instanceId = formatD instanceId' := List.append_cancel_left (List.append_cancel_right h)
  have hint := congrArg int hformat
  rw [int_formatD, int_formatD] at hint
  exact Option.some.inj hint

theorem senderFilePath_zero_ne_one (hostId : Int) :
    senderFilePath hostId (0 : Nat) ≠ senderFilePath hostId (1 : Nat) := by
  intro heq
  exact absurd (senderFilePath_inj heq) (by decide)

/-! ### One generator -/

/-- A dictionary under numbers from zero. -/
theorem entries_ofList_zipIdx {α β : Type} (f : α × Nat → β) (l : List α) :
    (Dict.ofList (l.zipIdx.map fun e => (e.2, f e))).entries = l.zipIdx.map fun e => (e.2, f e) := by
  refine Dict.entries_ofList ?_
  rw [List.map_map]
  exact nodup_zipIdx_snd l

/-- What the parameters keep of the arguments of a flow. -/
theorem ofArgs_spec {args : ClientArgs} {fp : FlowParameters} (h : FlowParameters.ofArgs args = some fp) :
    fp.srcHost = args.srcHost ∧ fp.destAddr = args.destAddr ∧ fp.flowId = args.flowId.getD 0 ∧
      args.sendable = fp.hasDistribution := by
  have hsendable : args.sendable = fp.hasDistribution := by
    rw [ClientArgs.sendable, h]
    rfl
  obtain ⟨trafficModel, -, heq⟩ := Option.bind_eq_some_iff.mp h
  cases heq
  exact ⟨rfl, rfl, rfl, hsendable⟩

section Generator

variable {env : Environment} {hostId : Int} {group : List ClientArgs} {index : Nat}

theorem getArgs_eq_some_iff (hhost : 0 ≤ hostId) {args : Int × Dict Nat FlowParameters} :
    getArgs ⟨argsFilePath hostId index, group⟩ = some args ↔
      ∃ params, group.mapM FlowParameters.ofArgs = some params ∧
        args = ((index : Int), Dict.ofList (params.zipIdx.map fun e => (e.2, e.1))) := by
  rw [getArgs, instanceIdOf_argsFilePath hhost, Option.bind_eq_bind, Option.bind_some, Option.bind_eq_bind,
    Option.bind_eq_some_iff]
  exact exists_congr fun params => and_congr_right fun _ => Option.some_inj.trans eq_comm

theorem generateTraffic_eq_some_iff {raises : Bool} {params : List FlowParameters} :
    generateTraffic raises (Dict.ofList (params.zipIdx.map fun e => (e.2, e.1))) = some () ↔
      (∀ fp ∈ params, fp.hasDistribution = true) ∧ params ≠ [] ∧ raises = false := by
  have hvalues : (Dict.ofList (params.zipIdx.map fun e => (e.2, e.1))).values = params := by
    rw [Dict.values, entries_ofList_zipIdx Prod.fst params, List.map_map]
    exact List.zipIdx_map_fst 0 params
  have hfirst : ((Dict.ofList (params.zipIdx.map fun e => (e.2, e.1))).get? 0).isSome = true ↔ params ≠ [] := by
    rw [← Dict.mem_keys_iff, Dict.keys, entries_ofList_zipIdx Prod.fst params, List.map_map]
    cases params with
    | nil => simp
    | cons fp rest => simp
  rw [generateTraffic, hvalues, ← List.all_eq_true, ← hfirst]
  cases params.all FlowParameters.hasDistribution <;>
    cases ((Dict.ofList (params.zipIdx.map fun e => (e.2, e.1))).get? 0).isSome <;> cases raises <;> simp [guard]

/-- A generator that reaches the signal has flows, and all of them can be sent. -/
theorem of_runInstance (hhost : 0 ≤ hostId) {left : Text × Dict Nat Record}
    (hrun : runInstance env index ⟨argsFilePath hostId index, group⟩ = some left) :
    group ≠ [] ∧ (∀ args ∈ group, args.sendable = true) ∧ env.raises index = false := by
  obtain ⟨args, hargs, hrest⟩ := Option.bind_eq_some_iff.mp hrun
  obtain ⟨params, hparams, rfl⟩ := (getArgs_eq_some_iff hhost).mp hargs
  obtain ⟨⟨⟩, hgenerate, -⟩ := Option.bind_eq_some_iff.mp hrest
  obtain ⟨hdistribution, hne, hraises⟩ := generateTraffic_eq_some_iff.mp hgenerate
  refine ⟨?_, fun args hargs => ?_, hraises⟩
  · rintro rfl
    cases hparams
    exact hne rfl
  · obtain ⟨fp, hfp, hofArgs⟩ := exists_of_mem_of_mapM hparams hargs
    rw [(ofArgs_spec hofArgs).2.2.2]
    exact hdistribution fp hfp

/-- The file of the handler. -/
theorem handleSigInt_eq {params : List FlowParameters} (hne : params ≠ []) (hsrc : ∀ fp ∈ params, fp.srcHost = hostId)
    (instanceId : Int) :
    handleSigInt env index instanceId (Dict.ofList (params.zipIdx.map fun e => (e.2, e.1))) =
      (senderFilePath hostId instanceId,
        Dict.ofList (params.zipIdx.map fun e => (e.2, flowInfoOf env index e.2 e.1))) := by
  have hentries := entries_ofList_zipIdx Prod.fst params
  have hlast : (Dict.ofList (params.zipIdx.map fun e => (e.2, e.1))).values.getLast? = some (params.getLast hne) := by
    rw [Dict.values, hentries, List.map_map, ← List.getLast?_eq_some_getLast hne]
    exact congrArg List.getLast? (List.zipIdx_map_fst 0 params)
  rw [handleSigInt, hlast, hentries, List.map_map]
  show (senderFilePath (params.getLast hne).srcHost instanceId, _) = _
  rw [hsrc _ (List.getLast_mem hne)]
  rfl

/-- A generator with flows that can be sent reaches the signal, and leaves their records under its own number. -/
theorem exists_runInstance (hhost : 0 ≤ hostId) (hsrc : ∀ args ∈ group, args.srcHost = hostId) (hne : group ≠ [])
    (hsendable : ∀ args ∈ group, args.sendable = true) (hraises : env.raises index = false) :
    ∃ flowInfo, runInstance env index ⟨argsFilePath hostId index, group⟩ =
        some (senderFilePath hostId index, flowInfo) ∧
      flowInfo.values = group.zipIdx.map fun args => recordOf env index args.2 args.1 := by
  obtain ⟨params, hparams⟩ := exists_mapM (f := FlowParameters.ofArgs) fun args hargs => by
    obtain ⟨fp, hfp, -⟩ := Option.any_eq_true _ _ |>.mp (hsendable args hargs)
    exact ⟨fp, hfp⟩
  have hrelated := forall₂_of_mapM hparams
  have hsrc' : ∀ fp ∈ params, fp.srcHost = hostId := by
    intro fp hfp
    obtain ⟨args, hargs, hofArgs⟩ := exists_of_mem_mapM hparams hfp
    rw [(ofArgs_spec hofArgs).1, hsrc args hargs]
  have hdistribution : ∀ fp ∈ params, fp.hasDistribution = true := by
    intro fp hfp
    obtain ⟨args, hargs, hofArgs⟩ := exists_of_mem_mapM hparams hfp
    rw [← (ofArgs_spec hofArgs).2.2.2, hsendable args hargs]
  have hne' : params ≠ [] := by
    rintro rfl
    cases hrelated
    exact hne rfl
  refine ⟨Dict.ofList (params.zipIdx.map fun e => (e.2, flowInfoOf env index e.2 e.1)), ?_, ?_⟩
  · rw [runInstance, (getArgs_eq_some_iff hhost).mpr ⟨params, hparams, rfl⟩, Option.bind_eq_bind, Option.bind_some,
      generateTraffic_eq_some_iff.mpr ⟨hdistribution, hne', hraises⟩, Option.bind_eq_bind, Option.bind_some,
      handleSigInt_eq hne' hsrc']
    rfl
  · rw [Dict.values, entries_ofList_zipIdx (fun e : FlowParameters × Nat => flowInfoOf env index e.2 e.1), List.map_map]
    refine map_eq_of_forall₂ (fun args fp h => ?_) (forall₂_zipIdx hrelated 0)
    obtain ⟨hsrcHost, hdestAddr, hflowId, -⟩ := ofArgs_spec h.1
    show flowInfoOf env index fp.2 fp.1 = recordOf env index args.2 args.1
    rw [flowInfoOf, recordOf, hsrcHost, hdestAddr, hflowId, h.2]

end Generator

theorem path_of_runInstance {env : Environment} {hostId : Int} {group : List ClientArgs} {index : Nat}
    (hhost : 0 ≤ hostId) (hsrc : ∀ args ∈ group, args.srcHost = hostId) {left : Text × Dict Nat Record}
    (hrun : runInstance env index ⟨argsFilePath hostId index, group⟩ = some left) :
    left.1 = senderFilePath hostId index := by
  obtain ⟨hne, hsendable, hraises⟩ := of_runInstance hhost hrun
  obtain ⟨flowInfo, hrun', -⟩ := exists_runInstance hhost hsrc hne hsendable hraises
  rw [hrun] at hrun'
  exact congrArg Prod.fst (Option.some.inj hrun')

/-! ### The results -/

/-- The loop that numbers the results anew. -/
theorem entries_renumber (records : List Record) (aggregate : Dict Nat Record) (resultIdx : Nat)
    (hkeys : ∀ key ∈ aggregate.keys, key < resultIdx) :
    (records.foldl (fun state results => (state.1.set state.2 results, state.2 + 1)) (aggregate, resultIdx)).1.entries =
      aggregate.entries ++ (records.zipIdx resultIdx).map fun e => (e.2, e.1) := by
  induction records generalizing aggregate resultIdx with
  | nil => simp
  | cons record rest ih =>
      have hnew : resultIdx ∉ aggregate.keys := fun hmem => Nat.lt_irrefl _ (hkeys resultIdx hmem)
      rw [List.foldl_cons, ih, Dict.entries_set_of_notMem hnew, List.zipIdx_cons, List.map_cons, List.append_assoc]
      · rfl
      · intro key hkey
        rw [Dict.keys_set_of_notMem hnew, List.mem_append, List.mem_singleton] at hkey
        obtain hold | rfl := hkey
        · exact Nat.lt_succ_of_lt (hkeys key hold)
        · exact Nat.lt_succ_self _

/-- The records of the two generators, one after the other, are those of the flows. -/
theorem records_eq (host : Host) (env : Environment) :
    let flowCount := host.configuredFlows.length / 2
    ((host.configuredFlows.take flowCount).zipIdx.map (fun args => recordOf env 0 args.2 args.1) ++
        (host.configuredFlows.drop flowCount).zipIdx.map fun args => recordOf env 1 args.2 args.1) =
      host.configuredFlows.zipIdx.map fun flow => host.recordAt env flow.2 flow.1 := by
  intro flowCount
  have hle : flowCount ≤ host.configuredFlows.length := Nat.div_le_self _ _
  have hlength : ((host.configuredFlows.take flowCount).zipIdx.map fun args => recordOf env 0 args.2 args.1).length =
      flowCount := by
    rw [List.length_map, List.length_zipIdx, List.length_take, Nat.min_eq_left hle]
  refine List.ext_getElem? fun i => ?_
  rw [List.getElem?_map, List.getElem?_zipIdx, Nat.zero_add]
  by_cases hi : i < flowCount
  · rw [List.getElem?_append_left (hlength.symm ▸ hi), List.getElem?_map, List.getElem?_zipIdx, Nat.zero_add,
      List.getElem?_take_of_lt hi]
    cases host.configuredFlows[i]? with
    | none => rfl
    | some args => exact congrArg some (if_pos hi).symm
  · rw [List.getElem?_append_right (hlength.symm ▸ Nat.le_of_not_lt hi), hlength, List.getElem?_map,
      List.getElem?_zipIdx, Nat.zero_add, List.getElem?_drop, Nat.add_sub_cancel' (Nat.le_of_not_lt hi)]
    cases host.configuredFlows[i]? with
    | none => rfl
    | some args => exact congrArg some (if_neg hi).symm

section Host

variable {host : Host} {env : Environment}

/-- The first half of the flows. -/
def firstGroup (host : Host) : List ClientArgs := host.configuredFlows.take (host.configuredFlows.length / 2)

def secondGroup (host : Host) : List ClientArgs := host.configuredFlows.drop (host.configuredFlows.length / 2)

theorem startTrafficGenerationClient_eq (hpos : 1 ≤ host.configuredFlows.length) :
    host.startTrafficGenerationClient =
      [⟨argsFilePath host.hostId 0, firstGroup host⟩, ⟨argsFilePath host.hostId 1, secondGroup host⟩] := by
  rw [Host.startTrafficGenerationClient, if_neg (by omega)]
  rfl

/-- From two flows on both halves have flows. -/
theorem groups_ne_nil (htwo : 2 ≤ host.configuredFlows.length) : firstGroup host ≠ [] ∧ secondGroup host ≠ [] := by
  refine ⟨List.ne_nil_of_length_pos ?_, List.ne_nil_of_length_pos ?_⟩
  · rw [firstGroup, List.length_take]
    omega
  · rw [secondGroup, List.length_drop]
    omega

/-- What is left of a generator. -/
def leave (files : Files) (left : Option (Text × Dict Nat Record)) : Files :=
  match left with
  | none => files
  | some (path, flowInfo) => files.set path flowInfo

theorem get?_leave {files : Files} {left : Option (Text × Dict Nat Record)} {path : Text}
    (h : ∀ file, left = some file → file.1 ≠ path) : (leave files left).get? path = files.get? path := by
  cases left with
  | none => rfl
  | some file => exact Dict.get?_set_of_ne (h file rfl).symm

/-- From a clean start both files are found only if both generators have left theirs. -/
theorem exists_left_of_get? {first second : Option (Text × Dict Nat Record)} {path path' : Text} (hne : path ≠ path')
    (hfirst : ∀ left, first = some left → left.1 = path) (hsecond : ∀ left, second = some left → left.1 = path')
    {info info' : Dict Nat Record} (hget : (leave (leave .empty first) second).get? path = some info)
    (hget' : (leave (leave .empty first) second).get? path' = some info') :
    (∃ left, first = some left) ∧ ∃ left, second = some left := by
  rw [get?_leave fun left h => hsecond left h ▸ hne.symm] at hget
  constructor
  · cases first with
    | none => cases hget
    | some left => exact ⟨left, rfl⟩
  · cases second with
    | none =>
        have hempty : (leave .empty first).get? path' = none := get?_leave fun left h => hfirst left h ▸ hne
        rw [leave, hempty] at hget'
        cases hget'
    | some left => exact ⟨left, rfl⟩

theorem stop_eq (first second : Process) (files : Files) :
    stopTrafficGenerationClient env [first, second] files =
      leave (leave files (runInstance env 0 first)) (runInstance env 1 second) := rfl

theorem getSenderResults_eq_some_iff {hostId : Int} {first second : Process} {files : Files}
    {results : Dict Nat Record} :
    getSenderResults hostId [first, second] files = some results ↔
      ∃ info info', files.get? (senderFilePath hostId (0 : Nat)) = some info ∧
        files.get? (senderFilePath hostId (1 : Nat)) = some info' ∧
        ((info.values ++ info'.values).foldl (fun state results => (state.1.set state.2 results, state.2 + 1))
          ((Dict.empty : Dict Nat Record), 0)).1 = results := by
  have hrange : [first, second].zipIdx = [(first, 0), (second, 1)] := rfl
  rw [getSenderResults, hrange, List.mapM_cons, List.mapM_cons, List.mapM_nil]
  cases files.get? (senderFilePath hostId (0 : Nat)) with
  | none => simp
  | some info =>
      cases files.get? (senderFilePath hostId (1 : Nat)) with
      | none => simp
      | some info' => simp

/-- After a run in which both generators reach the signal the results are those of the flows. -/
theorem exists_results (hhost : 0 ≤ host.hostId) (hsrc : ∀ args ∈ host.configuredFlows, args.srcHost = host.hostId)
    (h : host.KeepsSending env) (files : Files) :
    ∃ results, getSenderResults host.hostId host.startTrafficGenerationClient
        (stopTrafficGenerationClient env host.startTrafficGenerationClient files) = some results ∧
      results.entries = host.configuredFlows.zipIdx.map fun flow => (flow.2, host.recordAt env flow.2 flow.1) := by
  have htwo := h.two_le
  obtain ⟨hfirst_ne, hsecond_ne⟩ := groups_ne_nil htwo
  have hfirst : ∀ args ∈ firstGroup host, args ∈ host.configuredFlows := fun _ => List.mem_of_mem_take
  have hsecond : ∀ args ∈ secondGroup host, args ∈ host.configuredFlows := fun _ => List.mem_of_mem_drop
  obtain ⟨info, hrun, hinfo⟩ := exists_runInstance hhost (fun args hargs => hsrc args (hfirst args hargs))
    hfirst_ne (fun args hargs => h.sendable args (hfirst args hargs)) h.undisturbed.1
  obtain ⟨info', hrun', hinfo'⟩ := exists_runInstance hhost (fun args hargs => hsrc args (hsecond args hargs))
    hsecond_ne (fun args hargs => h.sendable args (hsecond args hargs)) h.undisturbed.2
  rw [startTrafficGenerationClient_eq (by omega), stop_eq, hrun, hrun']
  have hne := senderFilePath_zero_ne_one host.hostId
  refine ⟨_, getSenderResults_eq_some_iff.mpr ⟨info, info', ?_, ?_, rfl⟩, ?_⟩
  · rw [leave, Dict.get?_set_of_ne hne, leave, Dict.get?_set_self]
  · rw [leave, Dict.get?_set_self]
  · rw [entries_renumber _ _ _ (by simp [Dict.keys, Dict.empty]), hinfo, hinfo']
    have hrecords := records_eq host env
    simp only at hrecords
    rw [firstGroup, secondGroup, hrecords]
    refine List.ext_getElem? fun i => ?_
    show (List.map _ (List.zipIdx _))[i]? = _
    simp only [List.getElem?_map, List.getElem?_zipIdx, Nat.zero_add]
    cases host.configuredFlows[i]? <;> rfl

/-- From a clean start, results that are found were written by generators that reached the signal. -/
theorem keepsSending_of_results (hpos : 1 ≤ host.configuredFlows.length) (hhost : 0 ≤ host.hostId)
    (hsrc : ∀ args ∈ host.configuredFlows, args.srcHost = host.hostId) {results : Dict Nat Record}
    (hresults : getSenderResults host.hostId host.startTrafficGenerationClient
      (stopTrafficGenerationClient env host.startTrafficGenerationClient .empty) = some results) :
    host.KeepsSending env := by
  have hfirst : ∀ args ∈ firstGroup host, args.srcHost = host.hostId :=
    fun args h => hsrc args (List.mem_of_mem_take h)
  have hsecond : ∀ args ∈ secondGroup host, args.srcHost = host.hostId :=
    fun args h => hsrc args (List.mem_of_mem_drop h)
  rw [startTrafficGenerationClient_eq hpos, stop_eq] at hresults
  obtain ⟨info, info', hget, hget', -⟩ := getSenderResults_eq_some_iff.mp hresults
  obtain ⟨⟨left, hrun⟩, left', hrun'⟩ := exists_left_of_get? (senderFilePath_zero_ne_one host.hostId)
    (fun left => path_of_runInstance hhost hfirst) (fun left => path_of_runInstance hhost hsecond) hget hget'
  obtain ⟨hfirst_ne, hsendable, hraises⟩ := of_runInstance hhost hrun
  obtain ⟨-, hsendable', hraises'⟩ := of_runInstance hhost hrun'
  refine ⟨?_, fun args hargs => ?_, hraises, hraises'⟩
  · have hlength := List.length_pos_of_ne_nil hfirst_ne
    rw [firstGroup, List.length_take] at hlength
    omega
  · rw [← List.take_append_drop (host.configuredFlows.length / 2) host.configuredFlows, List.mem_append] at hargs
    exact hargs.elim (hsendable args) (hsendable' args)

end Host

theorem flatten_flowGroups (host : Host) : host.flowGroups.flatten = host.configuredFlows := by
  rw [Host.flowGroups, List.flatten_cons, List.flatten_singleton]
  exact List.take_append_drop _ _

/-- The generators that are started read the numbers that the host gave them. -/
theorem instanceIdOf_of_started {host : Host} (hpos : 1 ≤ host.configuredFlows.length) (hhost : 0 ≤ host.hostId)
    {index : Nat} {proc : Process} (hproc : host.startTrafficGenerationClient[index]? = some proc) :
    instanceIdOf proc.argsFile = some (index : Int) := by
  rw [startTrafficGenerationClient_eq hpos] at hproc
  obtain ⟨hlt, -⟩ := List.getElem?_eq_some_iff.mp hproc
  have hcases : index = 0 ∨ index = 1 := by
    rw [List.length_cons, List.length_singleton] at hlt
    omega
  obtain rfl | rfl := hcases
  · cases hproc
    exact instanceIdOf_argsFilePath hhost 0
  · cases hproc
    exact instanceIdOf_argsFilePath hhost 1

theorem delivers_of_keepsSending {host : Host} {env : Environment} (hhost : 0 ≤ host.hostId)
    (hsrc : ∀ args ∈ host.configuredFlows, args.srcHost = host.hostId) (h : host.KeepsSending env) (files : Files) :
    host.Delivers env files := by
  have hpos : 1 ≤ host.configuredFlows.length := Nat.le_of_succ_le h.two_le
  obtain ⟨hfirst_ne, hsecond_ne⟩ := groups_ne_nil h.two_le
  refine ⟨flatten_flowGroups host, ?_, fun index proc => instanceIdOf_of_started hpos hhost,
    exists_results hhost hsrc h files⟩
  rw [startTrafficGenerationClient_eq hpos, List.forall_mem_cons, List.forall_mem_singleton]
  exact ⟨hfirst_ne, hsecond_ne⟩

/-- The host delivers a record for each flow exactly if it has at least two flows and both generators keep sending; the
latter is enough whatever earlier trials left in `/tmp`. With a single flow the first half is empty: the generator that
is started for it looks for its first flow, ends, and leaves no file. -/
theorem delivers_iff_keeps_sending (host : Host) (env : Environment) (hpos : 1 ≤ host.configuredFlows.length)
    (hhost : 0 ≤ host.hostId) (hsrc : ∀ args ∈ host.configuredFlows, args.srcHost = host.hostId) :
    (host.Delivers env .empty ↔ host.KeepsSending env) ∧
      (host.KeepsSending env → ∀ files, host.Delivers env files) := by
  refine ⟨⟨fun h => ?_, fun h => delivers_of_keepsSending hhost hsrc h .empty⟩, delivers_of_keepsSending hhost hsrc⟩
  obtain ⟨results, hresults, -⟩ := h.results
  exact keepsSending_of_results hpos hhost hsrc hresults

/-- One more flow, at a fixed rate and over one path. -/
def Host.withFlowTo (host : Host) (destinationIp : Text) (flowId : Int) : Host :=
  host.configureFlowWithPrecomputedTransmitRates [1000] destinationIp 11111 [1] host.hostId 1 [1] flowId 1066

/-- Ten packets of each flow are sent, and nothing raises. -/
def quiet : Environment := ⟨fun _ _ => 10, fun index num => 40000 + 10 * index + num, fun _ => false⟩

def oneFlow : Host := (⟨4, "10.0.0.4".toList, []⟩ : Host).withFlowTo "10.0.0.5".toList 0

def threeFlows : Host := (oneFlow.withFlowTo "10.0.0.6".toList 1).withFlowTo "10.0.0.7".toList 2

theorem delivers_threeFlows : threeFlows.KeepsSending quiet ∧ threeFlows.Delivers quiet .empty := by
  have hkeeps : threeFlows.KeepsSending quiet := ⟨by decide, by decide +kernel, rfl, rfl⟩
  exact ⟨hkeeps, (delivers_iff_keeps_sending threeFlows quiet (by decide) (by decide) (by decide +kernel)).1.mpr hkeeps⟩

/-- One flow: a generator is started without flows, and the host does not find its file. -/
theorem one_flow_not_delivered :
    (oneFlow.startTrafficGenerationClient.map fun proc => proc.argumentDicts.length) = [0, 1] ∧
      getSenderResults oneFlow.hostId oneFlow.startTrafficGenerationClient
        (stopTrafficGenerationClient quiet oneFlow.startTrafficGenerationClient .empty) = none ∧
      ¬ oneFlow.Delivers quiet .empty := by
  refine ⟨rfl, by decide +kernel, fun h => ?_⟩
  exact h.nonempty _ (List.mem_cons_self) rfl

end OfTestbed.MininetHost
