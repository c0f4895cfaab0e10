import KompicsBenches.StopSystem

namespace KompicsBenches.StopLedger
open LeaderComp (BallotLeaderComp)
open ReconfigComp StopComp StopSystem

-- The stop of a node reaches a peer over two routes, by its election component and by
-- its replica.
inductive Route where
  | ble
  | replica
  deriving DecidableEq, Repr

-- The stop of node `p` in configuration `k`, on its way to `q`, is one token, from the
-- stop of the client to the notice that `q` takes of it.
def weight (route : Route) (p k q : ℕ) : Letter → ℕ
  | .clientStop pid => if pid = p then 1 else 0
  | .bleAsk spot => if route = .ble ∧ spot = (p,k) then 1 else 0
  | .replicaAsk spot _ => if route = .replica ∧ spot = (p,k) then 1 else 0
  | .bleStop spot pid => if route = .ble ∧ spot = (q,k) ∧ pid = p then 1 else 0
  | .sendStop spot _ => if route = .replica ∧ spot = (p,k) then 1 else 0
  | .commStop spot pid => if route = .replica ∧ spot = (q,k) ∧ pid = p then 1 else 0
  | .stopMsg spot pid => if route = .replica ∧ spot = (q,k) ∧ pid = p then 1 else 0
  | .clientPeer _ => 0

def load (route : Route) (p k q : ℕ) (letters : List Letter) : ℕ := (letters.map (weight route p k q)).sum

abbrev Views := Route → Spot → Stopper

def heard (views : Views) (route : Route) (p k q : ℕ) : ℕ :=
  if p ∈ (views route (q,k)).stoppedPeers then 1 else 0

def put (views : Views) (route : Route) (spot : Spot) (c : Stopper) : Views :=
  fun r at_ => if r = route ∧ at_ = spot then c else views r at_

variable {cfg : Config} {views : Views} {letters fresh : List Letter} {letter : Letter} {route : Route}
  {p k q : ℕ} {spot : Spot} {pid : ℕ} {c : Stopper} {ids : List ℕ}

-- A node has stopped and the receiver is one of its peers.
structure Sent (cfg : Config) (views : Views) (route : Route) (pid : ℕ) (spot : Spot) : Prop where
  stopped : (views route (pid,spot.2)).stopped
  peer : spot.1 ∈ cfg.peers (pid,spot.2)

def Proper (cfg : Config) (views : Views) : Letter → Prop
  | .bleStop spot pid => Sent cfg views .ble pid spot
  | .sendStop spot _ => (views .replica spot).stopped
  | .commStop spot pid => Sent cfg views .replica pid spot
  | .stopMsg spot pid => Sent cfg views .replica pid spot
  | _ => True

-- The part of the way on which the node has stopped already.
def Carries (route : Route) (p k q : ℕ) : Letter → Prop
  | .bleStop spot pid => route = .ble ∧ spot = (q,k) ∧ pid = p
  | .sendStop spot _ => route = .replica ∧ spot = (p,k)
  | .commStop spot pid => route = .replica ∧ spot = (q,k) ∧ pid = p
  | .stopMsg spot pid => route = .replica ∧ spot = (q,k) ∧ pid = p
  | _ => False

-- No stop gets lost before it is delivered.
def Complete (cfg : Config) (views : Views) (letters : List Letter) : Prop :=
  ∀ route p k q, (views route (p,k)).stopped → q ∈ cfg.peers (p,k) →
    p ∈ (views route (q,k)).stoppedPeers ∨ ∃ letter ∈ letters, Carries route p k q letter

structure Ledger (cfg : Config) (views : Views) (letters : List Letter) : Prop where
  peers : ∀ route spot, (views route spot).peers = cfg.peers spot
  sound : ∀ route spot, (views route spot).Sound
  once : ∀ route p k q, load route p k q letters + heard views route p k q ≤ 1
  proper : ∀ letter ∈ letters, Proper cfg views letter
  told : ∀ route spot, ∀ pid ∈ (views route spot).stoppedPeers, Sent cfg views route pid spot

section Loads

theorem load_append : load route p k q (letters ++ fresh) =
    load route p k q letters + load route p k q fresh := by
  rw [load,List.map_append,List.sum_append]
  rfl

theorem load_erase (member : letter ∈ letters) :
    weight route p k q letter + load route p k q (letters.erase letter) = load route p k q letters :=
  List.sum_map_erase (weight route p k q) member

theorem weight_le (member : letter ∈ letters) : weight route p k q letter ≤ load route p k q letters :=
  List.single_le_sum (by simp) _ (List.mem_map_of_mem member)

-- At most one of several different letters counts.
theorem sum_at_most {xs : List ℕ} (distinct : xs.Nodup) (f : ℕ → ℕ) (a n : ℕ)
    (bound : ∀ x, f x ≤ if x = a then n else 0) : (xs.map f).sum ≤ n := by
  induction xs with
  | nil => exact Nat.zero_le _
  | cons x xs ih =>
    rw [List.nodup_cons] at distinct
    rw [List.map_cons,List.sum_cons]
    have first := bound x
    by_cases same : x = a
    · have rest : (xs.map f).sum = 0 := by
        rw [List.sum_eq_zero_iff]
        intro value member
        obtain ⟨y,inside,rfl⟩ := List.mem_map.mp member
        have other : y ≠ a := by
          intro equal
          exact distinct.1 (same ▸ equal ▸ inside)
        have := bound y
        rw [if_neg other] at this
        omega
      rw [if_pos same] at first
      omega
    · rw [if_neg same] at first
      have := ih distinct.2
      omega

theorem asks_load (distinct : ids.Nodup) (node : ℕ) :
    load route p k q (asks node ids) ≤ weight route p k q (.clientStop node) := by
  rw [asks,load_append,load,load,List.map_map,List.map_map]
  cases route with
  | ble =>
    have asked := sum_at_most distinct (weight .ble p k q ∘ fun configId => .bleAsk (node,configId)) k
      (weight .ble p k q (.clientStop node)) (by
        intro configId
        simp only [Function.comp,weight,Prod.mk.injEq]
        split <;> split <;> grind)
    have others := sum_at_most distinct (weight .ble p k q ∘ fun configId =>
      .replicaAsk (node,configId) (ids.getLast? == some configId)) k 0 (by simp [weight])
    omega
  | replica =>
    have others := sum_at_most distinct (weight .replica p k q ∘ fun configId => .bleAsk (node,configId))
      k 0 (by simp [weight])
    have asked := sum_at_most distinct (weight .replica p k q ∘ fun configId =>
      .replicaAsk (node,configId) (ids.getLast? == some configId)) k
      (weight .replica p k q (.clientStop node)) (by
        intro configId
        simp only [Function.comp,weight,Prod.mk.injEq]
        split <;> split <;> grind)
    omega

theorem bleStop_load (distinct : ids.Nodup) :
    load route p k q (ids.map fun peer => .bleStop (peer,spot.2) spot.1) ≤
      weight route p k q (.bleAsk spot) := by
  rw [load,List.map_map]
  apply sum_at_most distinct _ q
  intro peer
  simp only [Function.comp,weight]
  grind

theorem commStop_load (distinct : ids.Nodup) (ackClient : Bool) :
    load route p k q (ids.map (fun peer => .commStop (peer,spot.2) spot.1) ++
      if ackClient then [.clientPeer spot.1] else []) ≤ weight route p k q (.sendStop spot ackClient) := by
  rw [load_append]
  have client : load route p k q (if ackClient then [.clientPeer spot.1] else []) = 0 := by
    cases ackClient with
    | true => rfl
    | false => rfl
  rw [client,Nat.add_zero,load,List.map_map]
  apply sum_at_most distinct _ q
  intro peer
  simp only [Function.comp,weight]
  grind

end Loads

section Moving
variable (ledger : Ledger cfg views letters)
include ledger

theorem Ledger.post (lighter : ∀ route p k q, load route p k q fresh ≤ load route p k q letters)
    (proper : ∀ letter ∈ fresh, Proper cfg views letter) : Ledger cfg views fresh := by
  refine ⟨ledger.peers,ledger.sound,?_,proper,ledger.told⟩
  intro route p k q
  have once := ledger.once route p k q
  have := lighter route p k q
  omega

-- One letter is replaced by others that are worth no more.
theorem Ledger.deliver (member : letter ∈ letters)
    (lighter : ∀ route p k q, load route p k q fresh ≤ weight route p k q letter)
    (proper : ∀ letter ∈ fresh, Proper cfg views letter) :
    Ledger cfg views (letters.erase letter ++ fresh) := by
  apply ledger.post
  · intro route p k q
    have rest : weight route p k q letter + load route p k q (letters.erase letter) =
        load route p k q letters := load_erase member
    have := lighter route p k q
    rw [load_append]
    omega
  · intro other inside
    obtain old | new := List.mem_append.mp inside
    · exact ledger.proper other (List.mem_of_mem_erase old)
    · exact proper other new

omit ledger in
theorem Sent.put (sent : Sent cfg views route pid spot) {r : Route} {at_ : Spot}
    (kept : (views r at_).stopped → c.stopped) : Sent cfg (put views r at_ c) route pid spot := by
  refine ⟨?_,sent.peer⟩
  unfold StopLedger.put
  split
  · rename_i same
    exact kept (same.1 ▸ same.2 ▸ sent.stopped)
  · exact sent.stopped

omit ledger in
theorem Proper.put {r : Route} {at_ : Spot} (proper : Proper cfg views letter)
    (kept : (views r at_).stopped → c.stopped) : Proper cfg (put views r at_ c) letter := by
  cases letter with
  | bleStop spot pid => exact Sent.put proper kept
  | commStop spot pid => exact Sent.put proper kept
  | stopMsg spot pid => exact Sent.put proper kept
  | sendStop spot ackClient =>
    show (StopLedger.put views r at_ c .replica spot).stopped
    unfold StopLedger.put
    split
    · rename_i same
      exact kept (same.1 ▸ same.2 ▸ proper)
    · exact proper
  | _ => trivial

theorem Ledger.stop (route : Route) (spot : Spot) :
    Ledger cfg (put views route spot (views route spot).stop) letters := by
  have stopped : (views route spot).stopped → (views route spot).stop.stopped := fun _ => rfl
  refine ⟨?_,?_,?_,?_,?_⟩
  · intro r at_
    unfold put
    split
    · rename_i same
      rw [same.2]
      exact ledger.peers route spot
    · exact ledger.peers r at_
  · intro r at_
    unfold put
    split
    · exact (ledger.sound route spot).stop
    · exact ledger.sound r at_
  · intro r p k q
    have same : heard (put views route spot (views route spot).stop) r p k q = heard views r p k q := by
      unfold heard put
      split
      · rename_i equal
        rw [equal.1,equal.2]
        rfl
      · rfl
    rw [same]
    exact ledger.once r p k q
  · intro letter member
    exact (ledger.proper letter member).put stopped
  · intro r at_ pid member
    apply Sent.put _ stopped
    unfold put at member
    split at member
    · rename_i equal
      rw [equal.1,equal.2]
      exact ledger.told route spot pid member
    · exact ledger.told r at_ pid member

-- A token that arrives becomes a notice of the receiver.
theorem Ledger.hear (member : letter ∈ letters) (arrives : ∀ r p k q, weight r p k q letter =
      if r = route ∧ spot = (q,k) ∧ pid = p then 1 else 0)
    (sent : Sent cfg views route pid spot) (peer : pid ∈ cfg.peers spot)
    (done : (views route spot).hear pid = some c) :
    Ledger cfg (put views route spot c) (letters.erase letter) := by
  obtain ⟨fresh,peers,stopped,heardOf,_⟩ := Stopper.hear_cases done
  have kept : (views route spot).stopped → c.stopped := fun down => stopped ▸ down
  refine ⟨?_,?_,?_,?_,?_⟩
  · intro r at_
    unfold put
    split
    · rename_i same
      rw [same.2,peers]
      exact ledger.peers route spot
    · exact ledger.peers r at_
  · intro r at_
    unfold put
    split
    · exact (ledger.sound route spot).hear (ledger.peers route spot ▸ peer) done
    · exact ledger.sound r at_
  · intro r p k q
    have once := ledger.once r p k q
    have rest : weight r p k q letter + load r p k q (letters.erase letter) =
        load r p k q letters := load_erase member
    rw [arrives] at rest
    by_cases same : r = route ∧ spot = (q,k) ∧ pid = p
    · obtain ⟨rfl,rfl,rfl⟩ := same
      have now : heard (put views r (q,k) c) r pid k q ≤ 1 := by
        unfold heard
        split <;> omega
      rw [if_pos ⟨rfl,rfl,rfl⟩] at rest
      omega
    · have still : heard (put views route spot c) r p k q ≤ heard views r p k q := by
        unfold heard put
        by_cases here : r = route ∧ (q,k) = spot
        · rw [if_pos here,heardOf,here.1,here.2]
          have other : p ≠ pid := fun equal => same ⟨here.1,here.2.symm,equal.symm⟩
          simp [other]
        · rw [if_neg here]
      rw [if_neg same] at rest
      omega
  · intro other inside
    exact (ledger.proper other (List.mem_of_mem_erase inside)).put kept
  · intro r at_ other inside
    apply Sent.put _ kept
    unfold put at inside
    split at inside
    · rename_i equal
      rw [heardOf,Finset.mem_insert] at inside
      rw [equal.1,equal.2]
      obtain rfl | old := inside
      · exact sent
      · exact ledger.told route spot other old
    · exact ledger.told r at_ other inside

end Moving

section Completing
variable (complete : Complete cfg views letters)
include complete

theorem Complete.deliver (passed : ∀ route p k q, q ∈ cfg.peers (p,k) → Carries route p k q letter →
      ∃ other ∈ fresh, Carries route p k q other) :
    Complete cfg views (letters.erase letter ++ fresh) := by
  intro route p k q stopped peer
  obtain heardOf | ⟨carrier,member,carries⟩ := complete route p k q stopped peer
  · exact .inl heardOf
  · right
    by_cases same : carrier = letter
    · obtain ⟨other,inside,carries⟩ := passed route p k q peer (same ▸ carries)
      exact ⟨other,List.mem_append_right _ inside,carries⟩
    · exact ⟨carrier,List.mem_append_left _ ((List.mem_erase_of_ne same).mpr member),carries⟩

-- The stop of one more node is on its way to all of its peers.
theorem Complete.stop (empty : ∀ route p k q, ¬Carries route p k q letter)
    (told : ∀ q ∈ cfg.peers spot, ∃ other ∈ fresh, Carries route spot.1 spot.2 q other) :
    Complete cfg (put views route spot (views route spot).stop) (letters.erase letter ++ fresh) := by
  have rest : Complete cfg views (letters.erase letter ++ fresh) :=
    complete.deliver (fun r p k q _ carries => (empty r p k q carries).elim)
  intro r p k q stopped peer
  have same : (put views route spot (views route spot).stop r (q,k)).stoppedPeers =
      (views r (q,k)).stoppedPeers := by
    unfold put
    split
    · rename_i equal
      rw [equal.1,equal.2]
      rfl
    · rfl
  rw [same]
  by_cases here : r = route ∧ (p,k) = spot
  · obtain ⟨rfl,rfl⟩ := here
    obtain ⟨other,inside,carries⟩ := told q peer
    exact .inr ⟨other,List.mem_append_right _ inside,carries⟩
  · rw [put,if_neg here] at stopped
    exact rest r p k q stopped peer

theorem Complete.hear (arrives : ∀ r p k q, Carries r p k q letter →
      r = route ∧ spot = (q,k) ∧ pid = p)
    (done : (views route spot).hear pid = some c) :
    Complete cfg (put views route spot c) (letters.erase letter) := by
  obtain ⟨_,_,stopped,heardOf,_⟩ := Stopper.hear_cases done
  intro r p k q down peer
  have down : (views r (p,k)).stopped := by
    unfold put at down
    split at down
    · rename_i equal
      rw [equal.1,equal.2,← stopped]
      exact down
    · exact down
  have more : ∀ other, other ∈ (views r (q,k)).stoppedPeers →
      other ∈ (put views route spot c r (q,k)).stoppedPeers := by
    intro other inside
    unfold put
    split
    · rename_i equal
      rw [heardOf,← equal.1,← equal.2]
      exact Finset.mem_insert_of_mem inside
    · exact inside
  obtain old | ⟨carrier,member,carries⟩ := complete r p k q down peer
  · exact .inl (more p old)
  · by_cases same : carrier = letter
    · obtain ⟨rfl,rfl,rfl⟩ := arrives r p k q (same ▸ carries)
      left
      rw [put,if_pos ⟨rfl,rfl⟩,heardOf]
      exact Finset.mem_insert_self _ _
    · exact .inr ⟨carrier,(List.mem_erase_of_ne same).mpr member,carries⟩

end Completing

end KompicsBenches.StopLedger
