import Mathlib

namespace KompicsBenches.ExperimentConfigs

structure AtomicBroadcastRequest where
  algorithm : String
  numberOfNodes : ℕ
  numberOfProposals : ℕ
  concurrentProposals : ℕ
  reconfiguration : String
  reconfigPolicy : String
  deriving DecidableEq, Repr

inductive BenchmarkError where
  | invalidTest (message : String)
  | invalidMessage (message : String)
  deriving DecidableEq, Repr

structure AtomicBroadcastMaster where
  numNodes : Option ℕ
  numProposals : Option ℕ
  concurrentProposals : Option ℕ
  reconfiguration : Option (List ℕ × List ℕ)
  deriving DecidableEq, Repr

structure ClientParams where
  algorithm : String
  lastNodeId : ℕ
  reconfigPolicy : String
  deriving DecidableEq, Repr

def AtomicBroadcastMaster.new : AtomicBroadcastMaster := ⟨none,none,none,none⟩

-- The words compared below are plain ASCII, for which lower case is that of the
-- characters one by one.
def toLowercase (s : String) : String := s.toLower

-- What each replica makes of the last node id alone: an even id stands for one node
-- more than the initial configuration.
def getExperimentConfigs (lastNodeId : ℕ) : List ℕ × List ℕ :=
  if lastNodeId % 2 = 0 then (List.range' 1 (lastNodeId - 1),List.range' 2 (lastNodeId - 1))
  else (List.range' 1 lastNodeId,[])

-- `none` is the assertion on the size of the new configuration.
def getReconfigData (s : String) (n : ℕ) :
    Option (Except BenchmarkError (ℕ × Option (List ℕ × List ℕ))) :=
  if toLowercase s = "off" then some (.ok (0,none))
  else if toLowercase s = "single" then some (.ok (1,some (List.range' 2 n,[])))
  else if toLowercase s = "majority" then
    let majority := n / 2 + 1
    let reconfig := List.range' 1 (majority - 1) ++ List.range' (n + 1) majority
    if n = reconfig.length then some (.ok (majority,some (reconfig,[]))) else none
  else some (.error (.invalidMessage "Got unknown reconfiguration parameter"))

-- The checks of one algorithm, with its name in the messages and the transfer
-- policies it knows.
def checkReconfiguration (name : String) (policies : List String) (c : AtomicBroadcastRequest) :
    Except BenchmarkError Unit :=
  let policy := toLowercase c.reconfigPolicy
  if toLowercase c.reconfiguration = "off" then
    if policy ≠ "none" then
      .error (.invalidTest
        s!"Reconfiguration is off, transfer policy should be none, but found: {c.reconfigPolicy}")
    else .ok ()
  else if toLowercase c.reconfiguration = "single" ∨ toLowercase c.reconfiguration = "majority" then
    if policies.contains policy then .ok ()
    else .error (.invalidTest s!"Unimplemented {name} transfer policy: {c.reconfigPolicy}")
  else .error (.invalidTest s!"Unimplemented {name} reconfiguration: {c.reconfiguration}")

def checkAlgorithm (c : AtomicBroadcastRequest) : Except BenchmarkError Unit :=
  if toLowercase c.algorithm = "paxos" then checkReconfiguration "Paxos" ["eager","pull"] c
  else if toLowercase c.algorithm = "raft" then
    checkReconfiguration "Raft" ["replace-leader","replace-follower"] c
  else .error (.invalidTest s!"Unimplemented atomic broadcast algorithm: {c.algorithm}")

def checkConcurrency (c : AtomicBroadcastRequest) : Except BenchmarkError Unit :=
  if c.numberOfProposals < c.concurrentProposals then
    .error (.invalidTest s!"Concurrent proposals: {c.concurrentProposals} should be less or equal to number of proposals: {c.numberOfProposals}")
  else .ok ()

namespace AtomicBroadcastMaster
variable (m : AtomicBroadcastMaster) (c : AtomicBroadcastRequest)

def deployNodes (numClients : ℕ) (data : ℕ × Option (List ℕ × List ℕ)) :
    Except BenchmarkError AtomicBroadcastMaster :=
  let n := c.numberOfNodes + data.1
  if numClients < n then .error (.invalidTest s!"Not enough clients: {numClients}, Required: {n}")
  else .ok {m with numNodes := some n, reconfiguration := data.2}

def validateExperimentParams (numClients : ℕ) : Option (Except BenchmarkError AtomicBroadcastMaster) :=
  match checkConcurrency c with
  | .error e => some (.error e)
  | .ok () =>
    match checkAlgorithm c with
    | .error e => some (.error e)
    | .ok () =>
      match getReconfigData c.reconfiguration c.numberOfNodes with
      | none => none
      | some (.error e) => some (.error e)
      | some (.ok data) => some (m.deployNodes c numClients data)

def lastNodeId : ℕ := if m.reconfiguration.isSome then c.numberOfNodes + 1 else c.numberOfNodes

def setup (numClients : ℕ) : Option (Except BenchmarkError (AtomicBroadcastMaster × ClientParams)) :=
  match m.validateExperimentParams c numClients with
  | none => none
  | some (.error e) => some (.error e)
  | some (.ok m) =>
    some (.ok ({m with
      numProposals := some c.numberOfProposals
      concurrentProposals := some c.concurrentProposals},
      ⟨c.algorithm,m.lastNodeId c,c.reconfigPolicy⟩))

-- The configuration the client starts in, `none` when the master was not set up.
def initialConfig : Option (List ℕ) := m.numNodes.map (List.range' 1)

end AtomicBroadcastMaster

-- Master, replicas and client mean the same configurations.
structure Agree (c : AtomicBroadcastRequest) (m : AtomicBroadcastMaster) (params : ClientParams) :
    Prop where
  counted : getReconfigData c.reconfiguration c.numberOfNodes ≠ none
  initial : (getExperimentConfigs params.lastNodeId).1 = List.range' 1 c.numberOfNodes
  proposed : ∀ voters followers, m.reconfiguration = some (voters,followers) →
    (getExperimentConfigs params.lastNodeId).2 = voters ++ followers
  client : m.initialConfig = some (getExperimentConfigs params.lastNodeId).1

variable {m master : AtomicBroadcastMaster} {c : AtomicBroadcastRequest} {params : ClientParams}
  {numClients : ℕ}

-- What a master that was set up holds.
theorem setup_parts (accepted : m.setup c numClients = some (.ok (master,params))) :
    ∃ data, getReconfigData c.reconfiguration c.numberOfNodes = some (.ok data) ∧
      master.numNodes = some (c.numberOfNodes + data.1) ∧ master.reconfiguration = data.2 ∧
      params.lastNodeId = c.numberOfNodes + if data.2.isSome then 1 else 0 := by
  unfold AtomicBroadcastMaster.setup at accepted
  cases validated : m.validateExperimentParams c numClients with
  | none => simp [validated] at accepted
  | some result =>
    cases result with
    | error e => simp [validated] at accepted
    | ok middle =>
      simp only [validated,Option.some.injEq,Except.ok.injEq,Prod.mk.injEq] at accepted
      obtain ⟨rfl,rfl⟩ := accepted
      unfold AtomicBroadcastMaster.validateExperimentParams at validated
      split at validated
      · cases validated
      · split at validated
        · cases validated
        · split at validated
          · cases validated
          · cases validated
          · rename_i data found
            unfold AtomicBroadcastMaster.deployNodes at validated
            dsimp only at validated
            split at validated
            · cases validated
            · simp only [Option.some.injEq,Except.ok.injEq] at validated
              subst validated
              refine ⟨data,found,rfl,rfl,?_⟩
              dsimp only [AtomicBroadcastMaster.lastNodeId]
              split <;> rfl

-- A reconfiguration adds at least one node.
theorem getReconfigData_parts {s : String} {n : ℕ} {data : ℕ × Option (List ℕ × List ℕ)}
    (found : getReconfigData s n = some (.ok data)) :
    (toLowercase s = "off" ∧ data = (0,none)) ∨
      (toLowercase s ≠ "off" ∧ 1 ≤ data.1 ∧ data.2.isSome) := by
  unfold getReconfigData at found
  split at found
  · rename_i off
    exact .inl ⟨off,(Except.ok.inj (Option.some.inj found)).symm⟩
  · rename_i on
    right
    refine ⟨on,?_⟩
    split at found
    · cases found
      exact ⟨Nat.le_refl _,rfl⟩
    · split at found
      · dsimp only at found
        split at found
        · cases found
          exact ⟨Nat.le_add_left _ _,rfl⟩
        · cases found
      · cases found

theorem range_length_ne {a b : ℕ} (different : a ≠ b) : List.range' 1 a ≠ List.range' 1 b := by
  intro same
  have lengths := congrArg List.length same
  rw [List.length_range',List.length_range'] at lengths
  exact different lengths

theorem agree_iff (someNode : 1 ≤ c.numberOfNodes)
    (accepted : m.setup c numClients = some (.ok (master,params))) :
    Agree c master params ↔ toLowercase c.reconfiguration = "off" ∧ c.numberOfNodes % 2 = 1 := by
  obtain ⟨data,found,nodes,reconfiguration,last⟩ := setup_parts accepted
  have client : master.initialConfig = some (List.range' 1 (c.numberOfNodes + data.1)) := by
    rw [AtomicBroadcastMaster.initialConfig,nodes]
    rfl
  constructor
  · intro agree
    have same := agree.client
    rw [client,agree.initial,Option.some.injEq] at same
    have added : data.1 = 0 := by
      by_contra more
      exact range_length_ne (by omega) same
    obtain ⟨off,rfl⟩ | ⟨_,more,_⟩ := getReconfigData_parts found
    · refine ⟨off,?_⟩
      have initial := agree.initial
      rw [last] at initial
      by_contra even
      have zero : c.numberOfNodes % 2 = 0 := by omega
      simp only [getExperimentConfigs,Option.isSome_none,Bool.false_eq_true,if_false,Nat.add_zero,
        if_pos zero] at initial
      exact range_length_ne (by omega) initial
    · omega
  · intro condition
    obtain ⟨off,odd⟩ := condition
    obtain ⟨_,rfl⟩ | ⟨on,_⟩ := getReconfigData_parts found
    · have notEven : ¬c.numberOfNodes % 2 = 0 := by omega
      have configs : getExperimentConfigs params.lastNodeId = (List.range' 1 c.numberOfNodes,[]) := by
        rw [last]
        simp only [getExperimentConfigs,Option.isSome_none,Bool.false_eq_true,if_false,Nat.add_zero,
          if_neg notEven]
      refine ⟨?_,?_,?_,?_⟩
      · rw [found]
        exact Option.some_ne_none _
      · rw [configs]
      · intro voters followers requested
        rw [reconfiguration] at requested
        cases requested
      · rw [client,configs]
        rfl
    · exact (on off).elim

-- Only the size of the new configuration can make the checks panic.
theorem setup_panic (panics : m.setup c numClients = none) :
    getReconfigData c.reconfiguration c.numberOfNodes = none := by
  unfold AtomicBroadcastMaster.setup at panics
  cases validated : m.validateExperimentParams c numClients with
  | none =>
    unfold AtomicBroadcastMaster.validateExperimentParams at validated
    split at validated
    · cases validated
    · split at validated
      · cases validated
      · split at validated
        · assumption
        · cases validated
        · cases validated
  | some result =>
    cases result with
    | error e => simp [validated] at panics
    | ok middle => simp [validated] at panics

-- They agree exactly without a reconfiguration and with an odd number of nodes: the
-- replicas take an even number for a reconfiguration, and the client starts with the
-- nodes of both configurations.
theorem configs_agree (someNode : 1 ≤ c.numberOfNodes)
    (accepted : ∀ e, m.setup c numClients ≠ some (.error e)) :
    (∃ master params, m.setup c numClients = some (.ok (master,params)) ∧ Agree c master params) ↔
      toLowercase c.reconfiguration = "off" ∧ c.numberOfNodes % 2 = 1 := by
  constructor
  · intro agreed
    obtain ⟨master,params,ready,agree⟩ := agreed
    exact (agree_iff someNode ready).mp agree
  · intro condition
    cases outcome : m.setup c numClients with
    | none =>
      have panics := setup_panic outcome
      rw [getReconfigData,if_pos condition.1] at panics
      cases panics
    | some result =>
      cases result with
      | error e => exact absurd outcome (accepted e)
      | ok ready => exact ⟨ready.1,ready.2,rfl,(agree_iff someNode outcome).mpr condition⟩

def plainRequest : AtomicBroadcastRequest := ⟨"Paxos",3,1000,200,"off","none"⟩

theorem plain_configs_agree : ∃ master params, AtomicBroadcastMaster.new.setup plainRequest 3 =
    some (.ok (master,params)) ∧ Agree plainRequest master params := by
  have ready : AtomicBroadcastMaster.new.setup plainRequest 3 =
      some (.ok (⟨some 3,some 1000,some 200,none⟩,⟨"Paxos",3,"none"⟩)) := by decide +kernel
  have accepted : ∀ e, AtomicBroadcastMaster.new.setup plainRequest 3 ≠ some (.error e) := by
    intro e rejected
    cases ready.symm.trans rejected
  exact (configs_agree (by decide) accepted).mpr (by decide +kernel)

def singleRequest : AtomicBroadcastRequest := ⟨"Paxos",3,1000,200,"single","pull"⟩

def singleMaster : AtomicBroadcastMaster := ⟨some 4,some 1000,some 200,some ([2,3,4],[])⟩

-- One node is replaced among three: the client starts in a configuration of four.
theorem single_configs_differ :
    AtomicBroadcastMaster.new.setup singleRequest 4 = some (.ok (singleMaster,⟨"Paxos",4,"pull"⟩)) ∧
      getExperimentConfigs 4 = ([1,2,3],[2,3,4]) ∧ singleMaster.initialConfig = some [1,2,3,4] ∧
      ¬Agree singleRequest singleMaster ⟨"Paxos",4,"pull"⟩ := by
  refine ⟨by decide +kernel,by decide +kernel,by decide +kernel,?_⟩
  intro agree
  have differs : singleMaster.initialConfig ≠ some (getExperimentConfigs 4).1 := by decide +kernel
  exact differs agree.client

end KompicsBenches.ExperimentConfigs
