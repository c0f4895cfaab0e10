import KompicsBenches.GuardedRuns

namespace KompicsBenches.IdentifyHandshake

open GuardedRuns

variable {ι : Type} [DecidableEq ι]

-- An `Identify` has no content. The run it was sent in rides along in the model;
-- no handler reads it.
abbrev Heard (ι : Type) := ι × ℕ

-- The reference of a `PartitioningActor` is the number of its run.
structure Node (ι : Type) where
  nodes : List (Heard ι)
  nodesListBuffer : List (Heard ι)
  n : ℕ
  master : Option ℕ
  currentRunId : ℤ
  working : Bool

structure PartitioningActor where
  initAckCount : ℕ
  doneCount : ℕ
  ran : Bool

inductive Letter (ι : Type) where
  | init (run : ℕ) (dst : ι)
  | identify (src dst : ι) (run : ℕ)
  | initAck (src : ι) (run : ℕ) (initId : ℤ)
  | run (run : ℕ) (dst : ι)
  | done (src : ι) (run : ℕ)
  deriving DecidableEq, Repr

-- An acknowledgement as it was sent, with the list `nodes` of its sender.
structure InitAck (ι : Type) where
  src : ι
  run : ℕ
  initId : ℤ
  nodes : List (Heard ι)
  deriving DecidableEq, Repr

structure System (ι : Type) where
  node : ι → Node ι
  master : ℕ → PartitioningActor
  begun : ℕ
  net : List (Letter ι)
  heard : List (ι × Heard ι)
  acks : List (InitAck ι)

def Node.start : Node ι := ⟨[],[],0,none,-1,false⟩

def System.start : System ι := ⟨fun _ => .start,fun _ => ⟨0,0,false⟩,0,[],[],[]⟩

def Node.newIteration (node : Node ι) (run : ℕ) (initId : ℤ) (nodes : List ι) : Node ι :=
  { node with currentRunId := initId, n := nodes.length, master := some run }

-- `none` is a message to the master before there is one.
def Node.identify (node : Node ι) (self : ι) (sender : Heard ι) : Option (Node ι × Option (InitAck ι)) :=
  let buffer := node.nodesListBuffer ++ [sender]
  if buffer.length = node.n then do
    let master ← node.master
    some ({ node with nodes := buffer, nodesListBuffer := [] },some ⟨self,master,node.currentRunId,buffer⟩)
  else some ({ node with nodesListBuffer := buffer },none)

inductive Event (ι : Type) where
  | begin
  | startRun
  | finish (i : ι)
  | deliver (letter : Letter ι)
  deriving DecidableEq, Repr

section Steps
variable (actors : List ι) (ids : ℕ → ℤ)

-- The next run starts when the last one has all its `Done` messages.
def begin (s : System ι) : Option (System ι) :=
  if s.begun = 0 ∨ (s.master (s.begun - 1)).doneCount = actors.length then
    some { s with begun := s.begun + 1, net := s.net ++ actors.map (Letter.init s.begun) }
  else none

-- The latch is down, and the master of the benchmark asks for the run.
def startRun (s : System ι) : Option (System ι) :=
  let run := s.begun - 1
  let m := s.master run
  if 0 < s.begun ∧ m.initAckCount = actors.length ∧ m.ran = false then
    some { s with
      master := Function.update s.master run { m with ran := true }
      net := s.net ++ actors.map (Letter.run run) }
  else none

-- The operations of a node are over; they involve none of these messages.
def finish (i : ι) (s : System ι) : Option (System ι) :=
  let node := s.node i
  if node.working then do
    let master ← node.master
    some { s with
      node := Function.update s.node i { node with working := false }
      net := s.net ++ [Letter.done i master] }
  else none

def receive (letter : Letter ι) (s : System ι) : Option (System ι) :=
  match letter with
  | .init run i =>
    some { s with
      node := Function.update s.node i ((s.node i).newIteration run (ids run) actors)
      net := s.net ++ actors.map (fun j => Letter.identify i j run) }
  | .identify src i run => do
    let (node,ack) ← (s.node i).identify i (src,run)
    some { s with
      node := Function.update s.node i node
      net := s.net ++ ack.toList.map (fun a => Letter.initAck a.src a.run a.initId)
      heard := s.heard ++ [(i,src,run)]
      acks := s.acks ++ ack.toList }
  | .initAck _ run _ =>
    let m := s.master run
    some { s with master := Function.update s.master run { m with initAckCount := m.initAckCount + 1 } }
  | .run _ i => some { s with node := Function.update s.node i { s.node i with working := true } }
  | .done _ run =>
    let m := s.master run
    some { s with master := Function.update s.master run { m with doneCount := m.doneCount + 1 } }

def step (s : System ι) : Event ι → Option (System ι)
  | .begin => begin actors s
  | .startRun => startRun actors s
  | .finish i => finish i s
  | .deliver letter =>
    if letter ∈ s.net then receive actors ids letter { s with net := s.net.erase letter } else none

end Steps

def arrived (heard : List (ι × Heard ι)) (i : ι) (r : ℕ) : List (Heard ι) :=
  (heard.filter fun e => e.1 = i ∧ e.2.2 = r).map Prod.snd

def Complete (actors : List ι) (heard : List (ι × Heard ι)) (i : ι) (r : ℕ) : Prop :=
  ∀ j ∈ actors, (i,j,r) ∈ heard

instance (actors : List ι) (heard : List (ι × Heard ι)) (i : ι) (r : ℕ) : Decidable (Complete actors heard i r) :=
  inferInstanceAs (Decidable (∀ j ∈ actors, (i,j,r) ∈ heard))

def Letter.isRun : Letter ι → Bool
  | .run _ _ => true
  | _ => false

def Letter.isDone : Letter ι → Bool
  | .done _ _ => true
  | _ => false

def Letter.isAck (r : ℕ) : Letter ι → Bool
  | .initAck _ target _ => target = r
  | _ => false

-- The way of an `Identify`: it is due while its sender has the `Init` before it,
-- then under way, then heard.
structure Flow (actors : List ι) (net : List (Letter ι)) (heard : List (ι × Heard ι)) (begun : ℕ) : Prop where
  one : ∀ i ∈ actors, ∀ j r, net.count (.init r j) + net.count (.identify j i r) + heard.count (i,j,r) =
    if j ∈ actors ∧ r < begun then 1 else 0
  inside : ∀ i j r, i ∉ actors → Letter.identify j i r ∉ net ∧ (i,j,r) ∉ heard

theorem count_taken {letter : Letter ι} {net : List (Letter ι)} (sent : letter ∈ net) (x : Letter ι) :
    net.count x = (net.erase letter).count x + if letter = x then 1 else 0 := by
  rw [(List.perm_cons_erase sent).count_eq,List.count_cons]
  simp

theorem countP_taken {letter : Letter ι} {net : List (Letter ι)} (sent : letter ∈ net) (p : Letter ι → Bool) :
    net.countP p = (net.erase letter).countP p + if p letter then 1 else 0 := by
  rw [(List.perm_cons_erase sent).countP_eq,List.countP_cons]

theorem count_apart {f : α → Letter ι} {x : Letter ι} (apart : ∀ a, f a ≠ x) (sources : List α) :
    (sources.map f).count x = 0 := by
  rw [List.count_eq_zero]
  intro sent
  obtain ⟨a,_,same⟩ := List.mem_map.mp sent
  exact apart a same

theorem Flow.start (actors : List ι) : Flow actors [] [] 0 := by
  constructor <;> simp

section Flows
variable {actors : List ι} {net next : List (Letter ι)} {heard : List (ι × Heard ι)} {begun : ℕ}

theorem Flow.same (flow : Flow actors net heard begun) (inits : ∀ r j, next.count (.init r j) = net.count (.init r j))
    (identifies : ∀ j i r, next.count (.identify j i r) = net.count (.identify j i r)) :
    Flow actors next heard begun where
  one i member j r := by
    rw [inits,identifies]
    exact flow.one i member j r
  inside i j r outside := by
    refine ⟨?_,(flow.inside i j r outside).2⟩
    rw [← List.count_eq_zero,identifies,List.count_eq_zero]
    exact (flow.inside i j r outside).1

theorem Flow.begins (flow : Flow actors net heard begun) (distinct : actors.Nodup) :
    Flow actors (net ++ actors.map (Letter.init begun)) heard (begun + 1) where
  one i member j r := by
    have before := flow.one i member j r
    have identifies : (actors.map (Letter.init begun)).count (.identify j i r) = 0 := by
      apply count_apart
      simp
    have inits : (actors.map (Letter.init begun)).count (.init r j) = if j ∈ actors ∧ r = begun then 1 else 0 := by
      by_cases same : r = begun
      · subst same
        rw [List.count_map_of_injective _ _ (fun _ _ same => by cases same; rfl),distinct.count]
        simp
      · rw [count_apart]
        · simp [same]
        · simp [Ne.symm same]
    rw [List.count_append,List.count_append,identifies,inits]
    by_cases known : j ∈ actors
    · simp only [known,true_and] at before ⊢
      split_ifs at before ⊢ <;> omega
    · simp only [known,false_and,if_false] at before ⊢
      omega
  inside i j r outside := by
    refine ⟨?_,(flow.inside i j r outside).2⟩
    simp [(flow.inside i j r outside).1]

-- The `Init` of `sender` gives its `Identify` to each actor.
theorem Flow.inits (flow : Flow actors net heard begun) (distinct : actors.Nodup)
    (sent : Letter.init run sender ∈ net) :
    Flow actors (net.erase (.init run sender) ++ actors.map (fun j => Letter.identify sender j run)) heard begun where
  one i member j r := by
    have before := flow.one i member j r
    have inits : (actors.map fun j => Letter.identify sender j run).count (.init r j) = 0 := by
      apply count_apart
      simp
    have identifies : (actors.map fun j => Letter.identify sender j run).count (.identify j i r) =
        if run = r ∧ sender = j then 1 else 0 := by
      by_cases same : run = r ∧ sender = j
      · obtain ⟨rfl,rfl⟩ := same
        rw [List.count_map_of_injective _ (fun j => Letter.identify sender j run) (fun _ _ same => by cases same; rfl),
          distinct.count]
        simp [member]
      · rw [count_apart,if_neg same]
        intro _ equal
        cases equal
        exact same ⟨rfl,rfl⟩
    have taken := count_taken sent (.init r j)
    have kept := count_taken sent (.identify j i r)
    simp only [Letter.init.injEq,reduceCtorEq,if_false] at taken kept
    rw [List.count_append,List.count_append,identifies,inits]
    omega
  inside i j r outside := by
    refine ⟨?_,(flow.inside i j r outside).2⟩
    rw [List.mem_append,not_or]
    constructor
    · intro old
      exact (flow.inside i j r outside).1 (List.mem_of_mem_erase old)
    · intro new
      obtain ⟨_,member,same⟩ := List.mem_map.mp new
      cases same
      exact outside member

theorem Flow.hears (flow : Flow actors net heard begun) (sent : Letter.identify src dst run ∈ net) :
    Flow actors (net.erase (.identify src dst run)) (heard ++ [(dst,src,run)]) begun where
  one i member j r := by
    have before := flow.one i member j r
    have kept := count_taken sent (.init r j)
    have taken := count_taken sent (.identify j i r)
    simp only [Letter.identify.injEq,reduceCtorEq,if_false] at taken kept
    have heard_now : [(dst,src,run)].count (i,j,r) = if src = j ∧ dst = i ∧ run = r then 1 else 0 := by
      rw [List.count_singleton]
      congr 1
      simp only [beq_iff_eq,Prod.mk.injEq,eq_iff_iff]
      tauto
    rw [List.count_append,heard_now]
    omega
  inside i j r outside := by
    refine ⟨fun old => (flow.inside i j r outside).1 (List.mem_of_mem_erase old),?_⟩
    rw [List.mem_append,not_or]
    refine ⟨(flow.inside i j r outside).2,?_⟩
    intro new
    cases List.mem_singleton.mp new
    exact (flow.inside dst src run outside).1 sent

theorem Flow.known (flow : Flow actors net heard begun) (entry : (i,j,r) ∈ heard) :
    i ∈ actors ∧ j ∈ actors ∧ r < begun ∧ Letter.init r j ∉ net ∧ Letter.identify j i r ∉ net := by
  have member : i ∈ actors := by
    by_contra outside
    exact (flow.inside i j r outside).2 entry
  have all := flow.one i member j r
  have positive := List.count_pos_iff.mpr entry
  split at all
  · rename_i origin
    refine ⟨member,origin.1,origin.2,?_,?_⟩
    · rw [← List.count_eq_zero]
      omega
    · rw [← List.count_eq_zero]
      omega
  · omega

theorem Flow.due (flow : Flow actors net heard begun) (sent : Letter.identify src dst run ∈ net) :
    dst ∈ actors ∧ src ∈ actors ∧ run < begun ∧ (dst,src,run) ∉ heard := by
  have member : dst ∈ actors := by
    by_contra outside
    exact (flow.inside dst src run outside).1 sent
  have all := flow.one dst member src run
  have positive := List.count_pos_iff.mpr sent
  split at all
  · rename_i origin
    refine ⟨member,origin.1,origin.2,?_⟩
    rw [← List.count_eq_zero]
    omega
  · omega

theorem Flow.nodup (flow : Flow actors net heard begun) : heard.Nodup := by
  rw [List.nodup_iff_count_le_one]
  intro entry
  obtain ⟨i,j,r⟩ := entry
  by_cases member : i ∈ actors
  · have all := flow.one i member j r
    split at all <;> omega
  · rw [List.count_eq_zero.mpr (flow.inside i j r member).2]
    omega

end Flows

theorem mem_arrived {heard : List (ι × Heard ι)} {i : ι} {r : ℕ} {entry : Heard ι} :
    entry ∈ arrived heard i r ↔ entry.2 = r ∧ (i,entry) ∈ heard := by
  unfold arrived
  rw [List.mem_map]
  constructor
  · rintro ⟨⟨dst,from_j⟩,found,rfl⟩
    rw [List.mem_filter,decide_eq_true_iff] at found
    obtain ⟨entered,rfl,same⟩ := found
    exact ⟨same,entered⟩
  · rintro ⟨same,entered⟩
    refine ⟨(i,entry),?_,rfl⟩
    rw [List.mem_filter,decide_eq_true_iff]
    exact ⟨entered,rfl,same⟩

theorem arrived_nodup {heard : List (ι × Heard ι)} (distinct : heard.Nodup) (i : ι) (r : ℕ) :
    (arrived heard i r).Nodup := by
  apply List.Nodup.map_on
  · intro a first b second same
    rw [List.mem_filter,decide_eq_true_iff] at first second
    exact Prod.ext (first.2.1.trans second.2.1.symm) same
  · exact distinct.filter _

theorem arrived_append (heard : List (ι × Heard ι)) (dst : ι) (entry : Heard ι) (i : ι) (r : ℕ) :
    arrived (heard ++ [(dst,entry)]) i r = arrived heard i r ++ if dst = i ∧ entry.2 = r then [entry] else [] := by
  unfold arrived
  rw [List.filter_append,List.map_append,List.filter_singleton]
  by_cases here : dst = i ∧ entry.2 = r
  · simp [here]
  · simp [here]

omit [DecidableEq ι] in
theorem complete_append (actors : List ι) (heard : List (ι × Heard ι)) {dst i : ι} {entry : Heard ι} {r : ℕ}
    (other : ¬(dst = i ∧ entry.2 = r)) : Complete actors (heard ++ [(dst,entry)]) i r ↔ Complete actors heard i r := by
  unfold Complete
  apply forall₂_congr
  intro j _
  rw [List.mem_append,List.mem_singleton]
  constructor
  · rintro (old | new)
    · exact old
    · cases new
      exact absurd ⟨rfl,rfl⟩ other
  · exact .inl

section Arrivals
variable {actors : List ι} {net : List (Letter ι)} {heard : List (ι × Heard ι)} {begun : ℕ}

theorem Flow.arrived_perm (flow : Flow actors net heard begun) (distinct : actors.Nodup)
    (complete : Complete actors heard i r) : (arrived heard i r).Perm (actors.map fun j => (j,r)) := by
  have images : (actors.map fun j => (j,r)).Nodup := by
    apply distinct.map
    intro a b same
    exact (Prod.mk.inj same).1
  rw [List.perm_ext_iff_of_nodup (arrived_nodup flow.nodup i r) images]
  intro entry
  rw [mem_arrived,List.mem_map]
  constructor
  · rintro ⟨rfl,entered⟩
    exact ⟨entry.1,(flow.known entered).2.1,rfl⟩
  · rintro ⟨j,member,rfl⟩
    exact ⟨rfl,complete j member⟩

-- The list of one run is full exactly when every actor is in it.
theorem Flow.arrived_length (flow : Flow actors net heard begun) (distinct : actors.Nodup) :
    (arrived heard i r).length = actors.length ↔ Complete actors heard i r := by
  constructor
  · intro full j member
    have images : (arrived heard i r).Subperm (actors.map fun j => (j,r)) := by
      apply (arrived_nodup flow.nodup i r).subperm
      intro entry found
      obtain ⟨rfl,entered⟩ := mem_arrived.mp found
      exact List.mem_map.mpr ⟨entry.1,(flow.known entered).2.1,rfl⟩
    have all := images.perm_of_length_le (by rw [List.length_map,full])
    exact (mem_arrived.mp (all.mem_iff.mpr (List.mem_map.mpr ⟨j,member,rfl⟩))).2
  · intro complete
    rw [(flow.arrived_perm distinct complete).length_eq,List.length_map]

end Arrivals

theorem countP_flip {l : List ι} {p q : ι → Bool} (distinct : l.Nodup) (member : a ∈ l) (before : p a = false)
    (after : q a = true) (same : ∀ b, b ≠ a → q b = p b) : l.countP q = l.countP p + 1 := by
  have split := List.perm_cons_erase member
  rw [split.countP_eq,split.countP_eq,List.countP_cons,List.countP_cons,before,after]
  have others : (l.erase a).countP q = (l.erase a).countP p := by
    apply List.countP_congr
    intro b found
    rw [same b (distinct.mem_erase_iff.mp found).1]
  rw [others]
  simp

section Invariants
variable (actors : List ι) (ids : ℕ → ℤ)

-- What a node knows in the present run. Before its own `Init` it may still have
-- the number of nodes, the master and the id of an earlier run.
structure Nodes (s : System ι) : Prop where
  buffer : ∀ i ∈ actors, (s.node i).nodesListBuffer =
    if Complete actors s.heard i (s.begun - 1) then [] else arrived s.heard i (s.begun - 1)
  size : ∀ i, (s.node i).n = actors.length ∨ (s.node i).n = 0
  known : 0 < s.begun → ∀ i ∈ actors, Letter.init (s.begun - 1) i ∉ s.net →
    (s.node i).n = actors.length ∧ (s.node i).master = some (s.begun - 1) ∧
      (s.node i).currentRunId = ids (s.begun - 1)
  nodes : ∀ i ∈ actors, Complete actors s.heard i (s.begun - 1) →
    (s.node i).nodes = arrived s.heard i (s.begun - 1)

structure Acks (s : System ι) : Prop where
  sent : ∀ i r, s.acks.filter (fun a => a.src = i ∧ a.run = r) =
    if Complete actors s.heard i r then [⟨i,r,ids r,arrived s.heard i r⟩] else []
  counted : ∀ r, (s.master r).initAckCount + s.net.countP (Letter.isAck r) =
    actors.countP fun i => Complete actors s.heard i r

-- Nothing of a run is left once its master has all the `Done` messages.
structure Work (s : System ι) : Prop where
  past : ∀ r, r + 1 < s.begun → ∀ i ∈ actors, Complete actors s.heard i r
  ran : (s.master (s.begun - 1)).ran = true → ∀ i ∈ actors, Complete actors s.heard i (s.begun - 1)
  fresh : ∀ r, s.begun ≤ r → s.master r = ⟨0,0,false⟩
  bound : s.net.countP Letter.isRun + actors.countP (fun i => (s.node i).working) + s.net.countP Letter.isDone +
    (s.master (s.begun - 1)).doneCount ≤ if (s.master (s.begun - 1)).ran then actors.length else 0
  current : ∀ i r, Letter.done i r ∈ s.net → r + 1 = s.begun
  workers : ∀ i, (s.node i).working = true → i ∈ actors
  runs : ∀ r i, Letter.run r i ∈ s.net → i ∈ actors

structure Inv (s : System ι) : Prop where
  flow : Flow actors s.net s.heard s.begun
  nodes : Nodes actors ids s
  acks : Acks actors ids s
  work : Work actors s

end Invariants

end KompicsBenches.IdentifyHandshake
