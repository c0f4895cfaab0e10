import Mathlib
import KompicsBenches.ExperimentConfigs

namespace KompicsBenches.RaftProposals
open ExperimentConfigs

inductive ReconfigurationPolicy where
  | replaceLeader
  | replaceFollower
  deriving DecidableEq, Repr

inductive ReconfigurationState where
  | none
  | pending
  | finished
  | removed
  deriving DecidableEq, Repr

structure Proposal where
  data : List UInt8
  reconfig : Option (List ℕ × List ℕ)
  deriving DecidableEq, Repr

-- What a replica asks its supervisor and the Raft library to do.
inductive Call where
  | forwardReconfig (leader : ℕ) (reconfig : List ℕ × List ℕ)
  | proposeMembershipChange (newConfig : List ℕ × List ℕ)
  | propose (data : List UInt8)
  deriving DecidableEq, Repr

-- The order in which a hash set is gone through: any order, each member once.
structure HashOrder where
  iter : Finset ℕ → List ℕ
  nodup : ∀ s, (iter s).Nodup
  mem : ∀ s pid, pid ∈ iter s ↔ pid ∈ s

-- `id`, `leaderId` and `voters` are those of the Raft node; no leader is zero.
structure RaftReplica where
  id : ℕ
  leaderId : ℕ
  voters : Finset ℕ
  hbProposals : List Proposal
  reconfigState : ReconfigurationState
  reconfigPolicy : ReconfigurationPolicy

-- `next` is `none` when the replica panics.
structure Outcome where
  calls : List Call
  next : Option RaftReplica

namespace RaftReplica

-- `none` when no follower is found.
def newConfig (order : HashOrder) (r : RaftReplica) (reconfig : List ℕ × List ℕ) : Option (List ℕ × List ℕ) :=
  let leaderPid := r.leaderId
  let currentConfig := r.voters
  match r.reconfigPolicy with
  | .replaceLeader =>
    let addNodes := reconfig.1.filter fun pid => pid ∉ currentConfig
    let newVoters := order.iter (currentConfig.erase leaderPid)
    some (newVoters ++ addNodes,[])
  | .replaceFollower =>
    if leaderPid ∉ reconfig.1 then
      let myPid := r.id
      let addNodes := reconfig.1.filter fun pid => pid ∉ currentConfig
      ((order.iter currentConfig).filter fun pid => pid ≠ myPid).head?.map fun followerPid =>
        let newVoters := order.iter (currentConfig.erase followerPid)
        (newVoters ++ addNodes,[])
    else some reconfig

-- What the library refuses ends in a panic.
def propose (order : HashOrder) (refused : Call → Bool) (r : RaftReplica) (proposal : Proposal) : Outcome :=
  if r.leaderId = 0 then ⟨[],some {r with hbProposals := r.hbProposals ++ [proposal]}⟩
  else
    match proposal.reconfig with
    | some reconfig =>
      if r.reconfigState = .none then
        if r.leaderId ≠ r.id then ⟨[.forwardReconfig r.leaderId reconfig],some r⟩
        else
          match r.newConfig order reconfig with
          | none => ⟨[],none⟩
          | some config =>
            let call := Call.proposeMembershipChange config
            ⟨[call],if refused call then none else some {r with reconfigState := .pending}⟩
      else ⟨[],some r⟩
    | none =>
      let call := Call.propose proposal.data
      ⟨[call],if refused call then none else some r⟩

-- The loop over the proposals that were held back, each with what the library then refuses.
def proposeAll (order : HashOrder) : RaftReplica → List ((Call → Bool) × Proposal) → Outcome
  | r, [] => ⟨[],some r⟩
  | r, (refused,proposal) :: rest =>
    let outcome := r.propose order refused proposal
    match outcome.next with
    | none => outcome
    | some next =>
      let later := proposeAll order next rest
      ⟨outcome.calls ++ later.calls,later.next⟩

end RaftReplica

section Runs
variable (order : HashOrder)

def Call.changesMembership : Call → Bool
  | .proposeMembershipChange _ => true
  | _ => false

def Outcome.changes (outcome : Outcome) : ℕ := outcome.calls.countP Call.changesMembership

-- The membership changes a replica may still ask for.
def RaftReplica.allowance (r : RaftReplica) : ℕ := if r.reconfigState = .none then 1 else 0

theorem propose_changes (refused : Call → Bool) (r : RaftReplica) (proposal : Proposal) :
    (r.propose order refused proposal).changes +
      (r.propose order refused proposal).next.elim 0 RaftReplica.allowance ≤ r.allowance := by
  unfold RaftReplica.propose
  split
  · exact (Nat.zero_add _).le
  · cases proposal.reconfig with
    | none =>
      dsimp only
      split
      · exact Nat.zero_le _
      · exact (Nat.zero_add _).le
    | some reconfig =>
      dsimp only
      split
      · rename_i fresh
        split
        · exact (Nat.zero_add _).le
        · rw [RaftReplica.allowance,if_pos fresh]
          cases r.newConfig order reconfig with
          | none => exact Nat.zero_le _
          | some config =>
            dsimp only
            split
            · exact Nat.le_refl 1
            · exact Nat.le_refl 1
      · exact (Nat.zero_add _).le

-- Whatever is proposed to a replica, it asks for one membership change at most, and for
-- none while a change is under way or done.
theorem proposeAll_changes (r : RaftReplica) (proposals : List ((Call → Bool) × Proposal)) :
    (r.proposeAll order proposals).changes ≤ r.allowance := by
  induction proposals generalizing r with
  | nil => exact Nat.zero_le _
  | cons first rest ih =>
    obtain ⟨refused,proposal⟩ := first
    have step := propose_changes order refused r proposal
    rw [RaftReplica.proposeAll]
    cases reached : (r.propose order refused proposal).next with
    | none => exact (Nat.le_add_right _ _).trans step
    | some next =>
      rw [reached,Option.elim_some] at step
      calc ((r.propose order refused proposal).calls ++ (next.proposeAll order rest).calls).countP Call.changesMembership
          = (r.propose order refused proposal).changes + (next.proposeAll order rest).changes := List.countP_append
        _ ≤ (r.propose order refused proposal).changes + next.allowance := Nat.add_le_add_left (ih next) _
        _ ≤ r.allowance := step

end Runs

section Replaced
variable {order : HashOrder} {voters : Finset ℕ} {requested : List ℕ} {removed : ℕ}

-- The voters without one of them, and the requested nodes that are new.
def replaced (order : HashOrder) (voters : Finset ℕ) (removed : ℕ) (requested : List ℕ) : List ℕ :=
  order.iter (voters.erase removed) ++ requested.filter fun pid => pid ∉ voters

def additions (voters : Finset ℕ) (requested : List ℕ) : ℕ := (requested.filter fun pid => pid ∉ voters).length

theorem mem_replaced {pid : ℕ} : pid ∈ replaced order voters removed requested ↔
    (pid ∈ voters ∧ pid ≠ removed) ∨ (pid ∈ requested ∧ pid ∉ voters) := by
  rw [replaced,List.mem_append,order.mem,Finset.mem_erase,and_comm,List.mem_filter,decide_eq_true_eq]

theorem iter_length (order : HashOrder) (s : Finset ℕ) : (order.iter s).length = s.card := by
  rw [← List.toFinset_card_of_nodup (order.nodup s)]
  congr 1
  ext pid
  rw [List.mem_toFinset,order.mem]

theorem replaced_length (member : removed ∈ voters) :
    (replaced order voters removed requested).length + 1 = voters.card + additions voters requested := by
  rw [replaced,List.length_append,iter_length,Nat.add_right_comm,Finset.card_erase_add_one member,additions]

theorem replaced_nodup (once : requested.Nodup) : (replaced order voters removed requested).Nodup := by
  rw [replaced,List.nodup_append]
  refine ⟨order.nodup _,once.filter _,?_⟩
  intro old inside new added same
  have voter := Finset.mem_of_mem_erase ((order.mem _ old).mp inside)
  have fresh := of_decide_eq_true (List.mem_filter.mp added).2
  exact fresh (same ▸ voter)

end Replaced

-- What the policy asks of the voters that are proposed.
structure Honours (r : RaftReplica) (requested newVoters : List ℕ) : Prop where
  once : newVoters.Nodup
  size : newVoters.length = r.voters.card
  added : ∀ pid ∈ requested, pid ∉ r.voters → pid ∈ newVoters
  leader : r.leaderId ∈ newVoters ↔ r.reconfigPolicy = .replaceFollower

section Policies
variable (order : HashOrder) {r : RaftReplica} {requested : List ℕ} {removed : ℕ}

-- One voter leaves, so the size is right only when one node comes.
theorem replaced_honours (once : requested.Nodup) (member : removed ∈ r.voters) (leads : r.leaderId ∈ r.voters)
    (policy : removed ≠ r.leaderId ↔ r.reconfigPolicy = .replaceFollower) :
    Honours r requested (replaced order r.voters removed requested) ↔ additions r.voters requested = 1 := by
  have length : (replaced order r.voters removed requested).length + 1 = r.voters.card + additions r.voters requested :=
    replaced_length member
  constructor
  · intro honours
    have size := honours.size
    omega
  · intro one
    refine ⟨replaced_nodup once,by omega,?_,?_⟩
    · intro pid asked fresh
      exact mem_replaced.mpr (.inr ⟨asked,fresh⟩)
    · rw [mem_replaced,← policy]
      constructor
      · rintro (⟨_,stays⟩ | ⟨_,fresh⟩)
        · exact Ne.symm stays
        · exact absurd leads fresh
      · intro stays
        exact .inl ⟨leads,Ne.symm stays⟩

-- The follower that leaves: the first in the order of the set.
theorem follower_found (two : 2 ≤ r.voters.card) : ∃ follower ∈ r.voters, follower ≠ r.id ∧
    ((order.iter r.voters).filter fun pid => pid ≠ r.id).head? = some follower := by
  have many : 1 < r.voters.card := two
  obtain ⟨other,member,apart⟩ := Finset.exists_mem_ne many r.id
  have kept : other ∈ (order.iter r.voters).filter fun pid => pid ≠ r.id :=
    List.mem_filter.mpr ⟨(order.mem _ other).mpr member,decide_eq_true apart⟩
  obtain ⟨follower,rest,found⟩ := List.exists_cons_of_ne_nil (List.ne_nil_of_mem kept)
  have inside : follower ∈ (order.iter r.voters).filter fun pid => pid ≠ r.id := found ▸ List.mem_cons_self
  obtain ⟨voter,different⟩ := List.mem_filter.mp inside
  exact ⟨follower,(order.mem _ follower).mp voter,of_decide_eq_true different,by rw [found]; rfl⟩

-- The three branches of a leader, for any voters and any request.
theorem newConfig_parts (two : 2 ≤ r.voters.card) (leads : r.leaderId = r.id) (member : r.leaderId ∈ r.voters)
    (reconfig : List ℕ × List ℕ) : ∃ config, r.newConfig order reconfig = some config ∧
      ((r.reconfigPolicy = .replaceFollower ∧ r.leaderId ∈ reconfig.1 ∧ config = reconfig) ∨
        (¬(r.reconfigPolicy = .replaceFollower ∧ r.leaderId ∈ reconfig.1) ∧
          ∃ removed ∈ r.voters, (removed ≠ r.leaderId ↔ r.reconfigPolicy = .replaceFollower) ∧
            config = (replaced order r.voters removed reconfig.1,[]))) := by
  unfold RaftReplica.newConfig
  cases policy : r.reconfigPolicy with
  | replaceLeader =>
    refine ⟨_,rfl,.inr ⟨?_,r.leaderId,member,?_,rfl⟩⟩
    · rintro ⟨other,_⟩
      cases other
    · exact ⟨fun different => absurd rfl different,fun other => by cases other⟩
  | replaceFollower =>
    dsimp only
    by_cases asked : r.leaderId ∈ reconfig.1
    · exact ⟨reconfig,if_neg (not_not.mpr asked),.inl ⟨rfl,asked,rfl⟩⟩
    · obtain ⟨follower,voter,different,found⟩ := follower_found order two
      rw [if_pos asked,found]
      refine ⟨_,rfl,.inr ⟨fun both => asked both.2,follower,voter,?_,rfl⟩⟩
      exact ⟨fun _ => rfl,fun _ => leads ▸ different⟩

variable {order} in
theorem propose_calls (leads : r.leaderId = r.id) (elected : r.leaderId ≠ 0) (fresh : r.reconfigState = .none)
    {reconfig config : List ℕ × List ℕ} (computed : r.newConfig order reconfig = some config)
    (refused : Call → Bool) (data : List UInt8) :
    (r.propose order refused ⟨data,some reconfig⟩).calls = [.proposeMembershipChange config] := by
  unfold RaftReplica.propose
  rw [if_neg elected]
  dsimp only
  rw [if_pos fresh,if_neg (not_not.mpr leads),computed]

end Policies

section Produced
variable {s : String} {n count : ℕ} {reconfig : List ℕ × List ℕ}

-- The two requests that a master makes.
theorem produced_parts (produced : getReconfigData s n = some (.ok (count,some reconfig))) :
    (toLowercase s = "single" ∧ reconfig.1 = List.range' 2 n) ∨
      (toLowercase s ≠ "single" ∧ n = 2 * (n / 2) + 1 ∧
        reconfig.1 = List.range' 1 (n / 2) ++ List.range' (n + 1) (n / 2 + 1)) := by
  unfold getReconfigData at produced
  split at produced
  · cases produced
  · split at produced
    · rename_i single
      cases produced
      exact .inl ⟨single,rfl⟩
    · rename_i other
      split at produced
      · dsimp only at produced
        split at produced
        · rename_i counted
          cases produced
          rw [List.length_append,List.length_range',List.length_range',Nat.add_sub_cancel] at counted
          exact .inr ⟨other,by omega,rfl⟩
        · cases produced
      · cases produced

theorem produced_nodup (produced : getReconfigData s n = some (.ok (count,some reconfig))) : reconfig.1.Nodup := by
  obtain ⟨_,same⟩ | ⟨_,_,same⟩ := produced_parts produced
  · rw [same]
    exact List.nodup_range'
  · rw [same,List.nodup_append]
    refine ⟨List.nodup_range',List.nodup_range',?_⟩
    intro old inside new added equal
    rw [List.mem_range'_1] at inside added
    omega

theorem produced_length (produced : getReconfigData s n = some (.ok (count,some reconfig))) : reconfig.1.length = n := by
  obtain ⟨_,same⟩ | ⟨_,odd,same⟩ := produced_parts produced
  · rw [same,List.length_range']
  · rw [same,List.length_append,List.length_range',List.length_range']
    omega

theorem beyond_new (nodes : List ℕ) (beyond : ∀ pid ∈ nodes, n < pid) :
    nodes.filter (fun pid => pid ∉ Finset.Icc 1 n) = nodes := by
  rw [List.filter_eq_self]
  intro pid inside
  have later := beyond pid inside
  simp only [Finset.mem_Icc,decide_eq_true_eq]
  omega

-- A single reconfiguration brings one new node, a majority more than one.
theorem produced_additions (two : 2 ≤ n) (produced : getReconfigData s n = some (.ok (count,some reconfig))) :
    additions (Finset.Icc 1 n) reconfig.1 = 1 ↔ toLowercase s = "single" := by
  obtain ⟨single,same⟩ | ⟨other,odd,same⟩ := produced_parts produced
  · refine iff_of_true ?_ single
    obtain ⟨m,rfl⟩ : ∃ m, n = m + 1 := ⟨n - 1,by omega⟩
    have old : (List.range' 2 m).filter (fun pid => pid ∉ Finset.Icc 1 (m + 1)) = [] := by
      rw [List.filter_eq_nil_iff]
      intro pid inside
      rw [List.mem_range'_1] at inside
      simp only [Finset.mem_Icc,decide_eq_true_eq,not_not]
      omega
    have new : [2 + m].filter (fun pid => pid ∉ Finset.Icc 1 (m + 1)) = [2 + m] :=
      beyond_new (List.range' (2 + m) 1) fun pid inside => by rw [List.mem_range'_1] at inside; omega
    rw [additions,same,List.range'_1_concat,List.filter_append,old,new]
    rfl
  · refine iff_of_false ?_ other
    have new : (List.range' (n + 1) (n / 2 + 1)).filter (fun pid => pid ∉ Finset.Icc 1 n) =
        List.range' (n + 1) (n / 2 + 1) :=
      beyond_new _ fun pid inside => by rw [List.mem_range'_1] at inside; omega
    rw [additions,same,List.filter_append,new,List.length_append,List.length_range']
    omega

end Produced

-- The replica takes out one voter at most, however many nodes a request adds; only a
-- request that is taken as it stands may add several.
theorem propose_honours_iff {order : HashOrder} {r : RaftReplica} {s : String} {n count : ℕ} {reconfig : List ℕ × List ℕ}
    (two : 2 ≤ n) (voters : r.voters = Finset.Icc 1 n) (member : r.leaderId ∈ r.voters) (leads : r.leaderId = r.id)
    (fresh : r.reconfigState = .none) (produced : getReconfigData s n = some (.ok (count,some reconfig)))
    (refused : Call → Bool) (data : List UInt8) :
    (∃ config, (r.propose order refused ⟨data,some reconfig⟩).calls = [.proposeMembershipChange config] ∧
      Honours r reconfig.1 config.1) ↔
    toLowercase s = "single" ∨ (r.reconfigPolicy = .replaceFollower ∧ r.leaderId ∈ reconfig.1) := by
  have card : r.voters.card = n := by rw [voters,Nat.card_Icc,Nat.add_sub_cancel]
  have elected : r.leaderId ≠ 0 := by
    rw [voters,Finset.mem_Icc] at member
    omega
  obtain ⟨config,computed,branch⟩ := newConfig_parts order (two.trans_eq card.symm) leads member reconfig
  have calls := propose_calls leads elected fresh computed refused data
  have handed : (∃ other, (r.propose order refused ⟨data,some reconfig⟩).calls = [.proposeMembershipChange other] ∧
      Honours r reconfig.1 other.1) ↔ Honours r reconfig.1 config.1 := by
    rw [calls]
    constructor
    · rintro ⟨other,same,honours⟩
      cases same
      exact honours
    · intro honours
      exact ⟨config,rfl,honours⟩
  rw [handed]
  rcases branch with ⟨policy,asked,rfl⟩ | ⟨replaces,removed,voter,stays,rfl⟩
  · refine iff_of_true ⟨produced_nodup produced,?_,fun pid inside _ => inside,iff_of_true asked policy⟩ (.inr ⟨policy,asked⟩)
    rw [produced_length produced,card]
  · rw [or_iff_left replaces,replaced_honours order (produced_nodup produced) voter member stays,voters]
    exact produced_additions two produced

def increasing : HashOrder where
  iter s := (List.range (s.sup id + 1)).filter fun pid => pid ∈ s
  nodup s := List.nodup_range.filter _
  mem s pid := by
    rw [List.mem_filter,decide_eq_true_eq,List.mem_range,and_iff_right_iff_imp]
    intro member
    exact Nat.lt_succ_of_le (Finset.le_sup (f := id) member)

-- Three voters, led by the second.
def leading (reconfigPolicy : ReconfigurationPolicy) : RaftReplica :=
  ⟨2,2,{1,2,3},[],.none,reconfigPolicy⟩

theorem propose_honours_iff_single :
    ∃ config, ((leading .replaceLeader).propose increasing (fun _ => false) ⟨[],some ([2,3,4],[])⟩).calls =
      [.proposeMembershipChange config] ∧ Honours (leading .replaceLeader) [2,3,4] config.1 :=
  have produced : getReconfigData "single" 3 = some (.ok (1,some ([2,3,4],[]))) := by decide +kernel
  (propose_honours_iff (by decide) (by decide) (by decide) rfl rfl produced (fun _ => false) []).mpr
    (.inl (by decide +kernel))

-- The leader leaves and two nodes come: four voters in place of three.
theorem majority_grows : getReconfigData "majority" 3 = some (.ok (2,some ([1,4,5],[]))) ∧
    ((leading .replaceLeader).propose increasing (fun _ => false) ⟨[],some ([1,4,5],[])⟩).calls =
      [.proposeMembershipChange ([1,3,4,5],[])] ∧ ¬Honours (leading .replaceLeader) [1,4,5] [1,3,4,5] := by
  refine ⟨by decide +kernel,by decide,?_⟩
  intro honours
  exact absurd honours.size (by decide)

end KompicsBenches.RaftProposals
