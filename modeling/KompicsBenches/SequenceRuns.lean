import KompicsBenches.SequenceOpen

namespace KompicsBenches.SequenceRuns
open Segments ReconfigComp ReconfigSystem ReconfigInvariant SequenceCollect SequenceNode SequenceOpen

structure Sound (cfg : Config) (s : System) : Prop where
  old : ∀ p, p ∉ cfg.newNodes → OldGood cfg (s.comps p)
  new : ∀ p, p ∈ cfg.newNodes → NewGood cfg (s.inbox p) (s.comps p)
  net : ∀ x ∈ s.net, GoodEffect cfg x.src (.tell x.dst x.msg)
  requests : ∀ x ∈ s.requests, GoodEffect cfg x.pid (.localSequenceReq x.requestor x.sr x.metadata)

variable {cfg : Config} {s next : System}

theorem sends_member {effects : List Effect} {x : Packet} (sent : x ∈ (effects.map (sends p)).sum) :
    x.src = p ∧ .tell x.dst x.msg ∈ effects := by
  induction effects with
  | nil => simp at sent
  | cons effect rest ih =>
    rw [List.map_cons,List.sum_cons,Multiset.mem_add] at sent
    rcases sent with now | later
    · cases effect with
      | tell pid msg =>
        cases Multiset.mem_singleton.mp now
        exact ⟨rfl,List.mem_cons_self⟩
      | _ => simp [sends] at now
    · obtain ⟨same,told⟩ := ih later
      exact ⟨same,List.mem_cons_of_mem _ told⟩

theorem asks_member {effects : List Effect} {x : LocalRequest}
    (asked : x ∈ (effects.map (asks p)).sum) :
    x.pid = p ∧ .localSequenceReq x.requestor x.sr x.metadata ∈ effects := by
  induction effects with
  | nil => simp at asked
  | cons effect rest ih =>
    rw [List.map_cons,List.sum_cons,Multiset.mem_add] at asked
    rcases asked with now | later
    · cases effect with
      | localSequenceReq requestor sr metadata =>
        cases Multiset.mem_singleton.mp now
        exact ⟨rfl,List.mem_cons_self⟩
      | _ => simp [asks] at now
    · obtain ⟨same,told⟩ := ih later
      exact ⟨same,List.mem_cons_of_mem _ told⟩

-- A step changes one component and the inbox of that component alone.
theorem Sound.commit (sound : Sound cfg s) {middle : System} (comps : middle.comps = s.comps)
    (fewer : ∀ x ∈ middle.net, x ∈ s.net) (answered : ∀ x ∈ middle.requests, x ∈ s.requests)
    (inboxes : ∀ q, q ≠ p → middle.inbox q = s.inbox q)
    (old : p ∉ cfg.newNodes → OldGood cfg result.1)
    (new : p ∈ cfg.newNodes → NewGood cfg (middle.inbox p) result.1)
    (effects : ∀ effect ∈ result.2, GoodEffect cfg p effect) : Sound cfg (middle.commit p result) where
  old := by
    intro q outside
    by_cases same : q = p
    · subst same
      simpa [System.commit] using old outside
    · simpa [System.commit,Function.update_of_ne same,comps] using sound.old q outside
  new := by
    intro q member
    by_cases same : q = p
    · subst same
      simpa [System.commit] using new member
    · simpa [System.commit,Function.update_of_ne same,comps,inboxes q same] using sound.new q member
  net := by
    intro x present
    rcases Multiset.mem_add.mp present with before | sent
    · exact sound.net x (fewer x before)
    · obtain ⟨rfl,told⟩ := sends_member sent
      exact effects _ told
  requests := by
    intro x present
    rcases Multiset.mem_add.mp present with before | asked
    · exact sound.requests x (answered x before)
    · obtain ⟨rfl,told⟩ := asks_member asked
      exact effects _ told

-- A step of one node, without a message.
theorem Sound.node (sound : Sound cfg s)
    (old : p ∉ cfg.newNodes → OldGood cfg result.1 ∧ ∀ effect ∈ result.2, GoodEffect cfg p effect)
    (new : p ∈ cfg.newNodes → Kept cfg p (s.inbox p) result) : Sound cfg (s.commit p result) := by
  refine sound.commit rfl (fun _ => id) (fun _ => id) (fun _ _ => rfl) (fun h => (old h).1)
    (fun h => (new h).1) ?_
  by_cases member : p ∈ cfg.newNodes
  · exact (new member).2
  · exact (old member).2

theorem initial_sound (cfg : Config) : Sound cfg (.initial cfg) where
  old := by
    intro p outside
    refine ⟨?_,rfl,fun _ => rfl,?_⟩
    · intro k seq stored
      cases stored
    · simp only [System.initial,PaxosComp.init]
      split <;> simp
  new := by
    intro p member
    obtain ⟨listed,outside⟩ := List.mem_filter.mp member
    simp only [decide_eq_true_eq] at outside
    refine ⟨⟨?_,?_,?_,?_,?_,?_⟩,.idle ?_ rfl rfl rfl rfl rfl⟩
    all_goals simp [System.initial,PaxosComp.init,outside,listed]
  net := by simp [System.initial]
  requests := by simp [System.initial]

theorem record_inbox (s : System) (x : Packet) (early : (s.comps x.dst).activeConfig.id < 2) :
    (s.record x).inbox x.dst = s.inbox x.dst ++ [x.msg] := by
  unfold System.record
  rw [if_pos early]
  simp

theorem record_late (s : System) (x : Packet) (late : 2 ≤ (s.comps x.dst).activeConfig.id) :
    (s.record x).inbox x.dst = s.inbox x.dst := by
  unfold System.record
  rw [if_neg (by omega)]

theorem record_other (s : System) (x : Packet) (other : q ≠ x.dst) :
    (s.record x).inbox q = s.inbox q := by
  unfold System.record
  split
  · simp [Function.update_of_ne other]
  · rfl

theorem record_fields (s : System) (x : Packet) :
    (s.record x).comps = s.comps ∧ (s.record x).net = s.net ∧
      (s.record x).requests = s.requests := by
  unfold System.record
  split <;> simp

theorem deliver_sound (sound : Sound cfg s) (present : x ∈ s.net)
    (done : (s.comps x.dst).receiveNetwork x.msg x.src rnd = some result) :
    Sound cfg (({s with net := s.net.erase x}.record x).commit x.dst result) := by
  have packet := sound.net x present
  have fields := record_fields {s with net := s.net.erase x} x
  have old : x.dst ∉ cfg.newNodes → OldGood cfg result.1 ∧
      ∀ effect ∈ result.2, GoodEffect cfg x.dst effect := by
    intro outside
    obtain ⟨src,dst,msg⟩ := x
    cases msg with
    | init r => exact (outside packet.1).elim
    | sequenceTransfer st => exact (outside packet.1).elim
    | sequenceRequest sr =>
      have good := sound.old dst outside
      unfold PaxosComp.receiveNetwork at done
      dsimp only at done
      split at done
      · cases done
        exact ⟨good,by simp⟩
      · obtain ⟨effects,handled,same⟩ := Option.map_eq_some_iff.mp done
        subst same
        exact ⟨good,good.request packet.2.2 packet.1 handled⟩
  have new : x.dst ∈ cfg.newNodes →
      Kept cfg x.dst (({s with net := s.net.erase x}.record x).inbox x.dst) result := by
    intro member
    by_cases early : (s.comps x.dst).activeConfig.id < 2
    · rw [record_inbox {s with net := s.net.erase x} x early]
      exact network_kept (sound.new _ member) member packet early done
    · rw [record_late {s with net := s.net.erase x} x (not_lt.mp early)]
      have good := sound.new _ member
      obtain ⟨same,effects⟩ := network_ignored good member packet (not_lt.mp early) done
      exact ⟨same ▸ good,effects⟩
  refine sound.commit fields.1 ?_ ?_ ?_ (fun h => (old h).1) (fun h => (new h).1) ?_
  · intro y listed
    rw [fields.2.1] at listed
    exact Multiset.mem_of_mem_erase listed
  · intro y listed
    rw [fields.2.2] at listed
    exact listed
  · intro q other
    exact record_other _ _ other
  · by_cases member : x.dst ∈ cfg.newNodes
    · exact (new member).2
    · exact (old member).2

theorem answer_sound (sound : Sound cfg s) (present : x ∈ s.requests)
    (chosen : chosenEntries cfg x.sr succeeded = some entries) :
    Sound cfg ({s with requests := s.requests.erase x}.commit x.pid
      (s.comps x.pid,[PaxosComp.replySequence x.sr x.requestor x.metadata succeeded entries])) := by
  obtain ⟨new,request,metadata⟩ := sound.requests x present
  have least : ∀ y ∈ s.requests.erase x, y ∈ s.requests := fun _ => Multiset.mem_of_mem_erase
  refine sound.commit rfl (fun _ => id) least (fun _ _ => rfl) (sound.old x.pid) (sound.new x.pid) ?_
  intro effect listed
  cases List.mem_singleton.mp listed
  refine ⟨new,request.config,request.ranged,?_,metadata⟩
  intro succeeded
  dsimp only at succeeded
  subst succeeded
  exact chosen

theorem step_sound (sound : Sound cfg s) (moved : step cfg s action = some next) :
    Sound cfg next := by
  cases action with
  | run p =>
    obtain ⟨result,done,rfl⟩ := Option.map_eq_some_iff.mp moved
    exact sound.node (fun outside => (sound.old p outside).run done)
      (fun member => (sound.new p member).run done)
  | leader p configId pid =>
    cases moved
    exact sound.node (fun outside => (sound.old p outside).leader rfl)
      (fun member => (sound.new p member).leader configId pid)
  | reconfig p =>
    dsimp only [step] at moved
    split at moved
    · rename_i allowed
      obtain ⟨member,_,active⟩ := allowed
      obtain ⟨result,done,rfl⟩ := Option.map_eq_some_iff.mp moved
      have outside := initial_not_new member
      have committed : Sound cfg (s.commit p result) :=
        sound.node (fun _ => (sound.old p outside).reconfig active done)
          (fun new => (outside new).elim)
      exact ⟨committed.old,committed.new,committed.net,committed.requests⟩
    · cases moved
  | deliver x rnd =>
    dsimp only [step] at moved
    split at moved
    · rename_i present
      obtain ⟨result,done,rfl⟩ := Option.map_eq_some_iff.mp moved
      exact deliver_sound sound present done
    · cases moved
  | answer x succeeded =>
    dsimp only [step] at moved
    split at moved
    · rename_i present
      obtain ⟨entries,chosen,rfl⟩ := Option.map_eq_some_iff.mp moved
      exact answer_sound sound present chosen
    · cases moved
  | retry p configId =>
    obtain ⟨⟨seqLen,total⟩,scheduled,fired⟩ := Option.bind_eq_some_iff.mp moved
    obtain ⟨result,done,rfl⟩ := Option.map_eq_some_iff.mp fired
    refine sound.node ?_ (fun member => (sound.new p member).retry member scheduled done)
    intro outside
    cases ((sound.old p outside).timers configId).symm.trans scheduled
  | stop p =>
    obtain ⟨result,done,rfl⟩ := Option.map_eq_some_iff.mp moved
    exact sound.node (fun outside => (sound.old p outside).stop done)
      (fun member => (sound.new p member).stop done)

theorem reached_sound (path : Reached cfg s) : Sound cfg s := by
  induction path with
  | initial => exact initial_sound cfg
  | step _ moved ih => exact step_sound ih moved

-- Only the first configuration's sequence is transferred, so a new node stores
-- it when it starts its replica from `handle_sequence_transfer`.
theorem stored_sequence_exact (cfg : Config) (long : 2 ≤ cfg.finalSequence.length)
    (path : Reached cfg s) (new : p ∈ cfg.newNodes)
    (stored : (s.comps p).prevSequences 1 = some seq) :
    seq = cfg.finalSequence ↔
      cfg.continuedNodes.length ∣ cfg.finalSequence.length ∧ LastReceived cfg (s.inbox p) :=
  ((reached_sound path).new p new).phase.verdict stored long

-- Node 3 leaves and node 4 is new. The final sequence has `k` entries and the
-- stop sign.
def replace (policy : ReconfigurationPolicy) (k : ℕ) : Config where
  initial := [1,2,3]
  reconfiguration := [1,2,4]
  distinct := by decide
  policy := policy
  entries := (List.range k).map fun i => .normal [UInt8.ofNat (i + 1)]
  skipPrepareUseLeader := none

-- Configuration 1 runs with the given leader, and the nodes in `deciding` report
-- the stop sign.
def decided (leader : ℕ) (deciding : List ℕ) : List Action :=
  [.run 1,.run 2,.run 3,.run 4,.leader 1 1 leader,.leader 2 1 leader,.leader 3 1 leader] ++
    deciding.map .reconfig

def initOf (cfg : Config) (sender : ℕ) (segment : Option SequenceSegment) : Packet :=
  ⟨sender,4,.init ⟨2,⟨[1,2],[4]⟩,⟨1,cfg.finalSequence.length⟩,sender,segment,none⟩⟩

def requestOf (dst tag fromIdx toIdx : ℕ) : Packet :=
  ⟨4,dst,.sequenceRequest ⟨1,tag,fromIdx,toIdx,4⟩⟩

def transferOf (src tag : ℕ) (succeeded : Bool) (segment : SequenceSegment) : Packet :=
  ⟨src,4,.sequenceTransfer ⟨1,tag,succeeded,⟨0,0⟩,segment⟩⟩

theorem executed (cfg : Config) (actions : List Action) (view : System → α) (result : α)
    (done : (execute cfg (.initial cfg) actions).map view = some result) :
    ∃ s, Reached cfg s ∧ view s = result := by
  obtain ⟨s,ran,same⟩ := Option.map_eq_some_iff.mp done
  exact ⟨s,execute_reached .initial ran,same⟩

def first : Entry := .normal [1]
def second : Entry := .normal [2]
def third : Entry := .normal [3]
def sign : Entry := .stopSign ⟨2,[1,2,4],none⟩

-- The leader is the last continued node. Node 1 has not decided yet and fails the
-- request, which node 2 then answers.
def retriedRun : List Action :=
  decided 2 [2] ++ [.deliver (initOf (replace .pull 3) 2 (some ⟨2,4,[third,sign]⟩)) 0,
    .deliver (requestOf 1 1 0 2) 0,.answer ⟨1,4,⟨1,1,0,2,4⟩,⟨0,0⟩⟩ false,
    .deliver (transferOf 1 1 false ⟨0,2,[]⟩) 0,.deliver (requestOf 2 1 0 2) 0,
    .deliver (transferOf 2 1 true ⟨0,2,[first,second]⟩) 0]

theorem retried_run_exact : ∃ s, Reached (replace .pull 3) s ∧
    (s.comps 4).prevSequences 1 = some (replace .pull 3).finalSequence ∧
    LastReceived (replace .pull 3) (s.inbox 4) := by
  obtain ⟨s,path,stored⟩ := executed (replace .pull 3) retriedRun
    (fun s => (s.comps 4).prevSequences 1) (some (replace .pull 3).finalSequence)
    (by decide +kernel)
  refine ⟨s,path,stored,?_⟩
  exact ((stored_sequence_exact _ (by decide) path (by decide) stored).mp rfl).2

def TransferCorrect (policy : ReconfigurationPolicy) : Prop :=
  ∀ (cfg : Config) (s : System) (p : ℕ) (seq : List Entry), cfg.policy = policy →
    cfg.continuedNodes ≠ [] → 2 ≤ cfg.finalSequence.length → Reached cfg s → p ∈ cfg.newNodes →
    (s.comps p).prevSequences 1 = some seq → seq = cfg.finalSequence

-- Pull: the leader is node 1, its segment is accounted as the one of node 2.
-- Eager: a sequence of three entries has two segments of one entry.
theorem transfer_incomplete : ¬TransferCorrect .pull ∧ ¬TransferCorrect .eager := by
  constructor
  · intro correct
    obtain ⟨s,path,stored⟩ := executed (replace .pull 3)
      (decided 1 [1,2] ++ [.deliver (initOf (replace .pull 3) 1 (some ⟨0,2,[first,second]⟩)) 0,
        .deliver (requestOf 2 1 0 2) 0,.deliver (transferOf 2 1 true ⟨0,2,[first,second]⟩) 0])
      (fun s => (s.comps 4).prevSequences 1) (some [first,second,.normal [],.normal []])
      (by decide +kernel)
    have same := correct _ s 4 _ rfl (by decide) (by decide) path (by decide) stored
    exact absurd same (by decide)
  · intro correct
    obtain ⟨s,path,stored⟩ := executed (replace .eager 2)
      (decided 2 [1,2] ++ [.deliver (initOf (replace .eager 2) 2 (some ⟨1,2,[second]⟩)) 0,
        .deliver (transferOf 1 1 true ⟨0,1,[first]⟩) 0])
      (fun s => (s.comps 4).prevSequences 1) (some [first,second,.normal []]) (by decide +kernel)
    have same := correct _ s 4 _ rfl (by decide) (by decide) path (by decide) stored
    exact absurd same (by decide)

end KompicsBenches.SequenceRuns
