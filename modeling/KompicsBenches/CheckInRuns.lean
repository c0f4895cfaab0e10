import KompicsBenches.GuardedRuns
import KompicsBenches.MasterClients

namespace KompicsBenches.CheckInRuns

open StoppingRule (State)
open MasterClients GuardedRuns

variable {ι : Type} [DecidableEq ι]

-- The command that the master waits for, and the ones on their way to a client.
def current (m : Master ι) : Command := if m.state = .cleanup then .cleanup m.isFinal else .setup

def pending (s : System ι) (i : ι) : List Command :=
  (s.rpcs.filter (fun rpc => rpc.1 = i)).map Prod.snd ++ (s.nodes i).commands

-- A listed client has a benchmark from its setup to its final cleanup.
def Busy (m : Master ι) (i : ι) : Prop :=
  m.state = .setup ∧ i ∉ m.awaited ∨ m.state = .run ∨
    m.state = .cleanup ∧ (i ∈ m.awaited ∨ m.isFinal = false)

structure Inv (s : System ι) : Prop where
  distinct : s.master.clients.Nodup
  full : s.master.state ≠ .init → s.master.clients.length = s.master.waitFor
  listed : ∀ i ∈ s.master.awaited, i ∈ s.master.clients
  once : s.master.awaited.Nodup
  asked : s.master.awaited ≠ [] → s.master.state = .setup ∨ s.master.state = .cleanup
  flight : ∀ i, pending s i = if i ∈ s.master.awaited then [current s.master] else []
  running : ∀ i ∈ s.master.clients, Busy s.master i → (s.nodes i).client.state = .running
  alive : ∀ i, (s.nodes i).panicked = false

theorem inv_start (waitFor : ℕ) : Inv (System.start waitFor : System ι) where
  distinct := List.nodup_nil
  full other := absurd rfl other
  listed := by simp [System.start]
  once := List.nodup_nil
  asked := by simp [System.start]
  flight := by simp [System.start,pending,Node.start]
  running := by simp [System.start]
  alive := by simp [System.start,Node.start]

-- What the invariant does not read may change, and a client that runs no
-- benchmark may change its state.
theorem Inv.frame {s t : System ι} (inv : Inv s) (state : t.master.state = s.master.state)
    (waitFor : t.master.waitFor = s.master.waitFor) (clients : t.master.clients = s.master.clients)
    (awaited : t.master.awaited = s.master.awaited) (isFinal : t.master.isFinal = s.master.isFinal)
    (rpcs : t.rpcs = s.rpcs) (commands : ∀ i, (t.nodes i).commands = (s.nodes i).commands)
    (panicked : ∀ i, (t.nodes i).panicked = (s.nodes i).panicked)
    (running : ∀ i, (s.nodes i).client.state = .running → (t.nodes i).client.state = .running) :
    Inv t where
  distinct := clients ▸ inv.distinct
  full other := by
    rw [clients,waitFor]
    exact inv.full (state ▸ other)
  listed := by
    rw [awaited,clients]
    exact inv.listed
  once := awaited ▸ inv.once
  asked := by
    rw [awaited,state]
    exact inv.asked
  flight i := by
    have before := inv.flight i
    simpa only [pending,current,rpcs,commands,awaited,state,isFinal] using before
  running i listed busy := by
    rw [clients] at listed
    apply running
    apply inv.running i listed
    simpa only [Busy,state,awaited,isFinal] using busy
  alive i := (panicked i).trans (inv.alive i)

theorem Inv.node {s : System ι} (inv : Inv s) {node : Node} (commands : node.commands = (s.nodes i).commands)
    (panicked : node.panicked = (s.nodes i).panicked)
    (running : (s.nodes i).client.state = .running → node.client.state = .running)
    (checkIns : List (ι × ℕ)) :
    Inv { s with nodes := Function.update s.nodes i node, checkIns := checkIns } := by
  refine inv.frame rfl rfl rfl rfl rfl rfl ?_ ?_ ?_
  all_goals
    intro j
    by_cases same : j = i
    · subst same
      simpa using by assumption
    · simp [same]

theorem inv_quiet {s : System ι} (quiet : s.master.awaited = []) (silent : ∀ i, pending s i = [])
    (distinct : s.master.clients.Nodup)
    (full : s.master.state ≠ .init → s.master.clients.length = s.master.waitFor)
    (running : ∀ i ∈ s.master.clients, Busy s.master i → (s.nodes i).client.state = .running)
    (alive : ∀ i, (s.nodes i).panicked = false) : Inv s where
  distinct := distinct
  full := full
  listed := by simp [quiet]
  once := by simp [quiet]
  asked := by simp [quiet]
  flight i := by simp [quiet,silent i]
  running := running
  alive := alive

theorem Inv.silent {s : System ι} (inv : Inv s) (quiet : s.master.awaited = []) (i : ι) :
    pending s i = [] := by
  simpa [quiet] using inv.flight i

theorem Inv.quiet {s : System ι} (inv : Inv s) (not_setup : s.master.state ≠ .setup)
    (not_cleanup : s.master.state ≠ .cleanup) : s.master.awaited = [] := by
  by_contra some_left
  rcases inv.asked some_left with state | state
  · exact not_setup state
  · exact not_cleanup state

section CheckIn
variable {s next : System ι} (inv : Inv s)
include inv

theorem checkin_inv (done : checkin i s = some next) : Inv next := by
  unfold checkin at done
  dsimp only at done
  split at done
  · cases done
    apply inv.node
    · rfl
    · rfl
    · exact id
  · cases done

theorem arrive_inv (done : arrive i attempt s = some next) : Inv next := by
  unfold arrive at done
  dsimp only at done
  split at done
  · split at done
    all_goals
      cases done
      exact inv.frame rfl rfl rfl rfl rfl rfl (fun _ => rfl) (fun _ => rfl) (fun _ => id)
  · cases done

theorem connected_inv (done : connected i s = some next) : Inv next := by
  unfold connected at done
  dsimp only at done
  split at done
  · split at done
    · rename_i fresh
      cases done
      apply inv.node
      · rfl
      · rfl
      · intro busy
        rw [fresh] at busy
        cases busy
    · cases done
  · cases done

theorem refused_inv (done : refused i s = some next) : Inv next := by
  unfold refused at done
  dsimp only at done
  split at done
  · cases done
    apply inv.node
    · rfl
    · rfl
    · exact id
  · cases done

-- The list grows by a client that it does not hold yet.
theorem handleCheckIn_inv (fresh : ∀ i ∈ s.master.checkInQueue.head?, i ∉ s.master.clients)
    (done : handleCheckIn s = some next) : Inv next := by
  unfold handleCheckIn at done
  split at done
  · rename_i i rest early queue
    cases done
    have quiet := inv.quiet (by simp [early]) (by simp [early])
    have distinct : (s.master.clients ++ [i]).Nodup := by
      rw [List.nodup_append]
      refine ⟨inv.distinct,List.nodup_singleton _,?_⟩
      rintro j member k new rfl
      exact fresh i (by simp [queue]) (List.mem_singleton.mp new ▸ member)
    unfold Master.checkInHandler
    simp only [early,if_true]
    split
    · rename_i reached
      exact inv_quiet quiet (inv.silent quiet) distinct (fun _ => reached)
        (fun j _ busy => by simp [Busy] at busy) inv.alive
    · exact inv_quiet quiet (inv.silent quiet) distinct (fun other => absurd rfl other)
        (fun j _ busy => by simp [Busy] at busy) inv.alive
  · cases done

end CheckIn

theorem addressed (command : Command) {clients : List ι} (distinct : clients.Nodup) (i : ι) :
    ((clients.map fun j => (j,command)).filter (fun rpc => rpc.1 = i)).map Prod.snd =
      if i ∈ clients then [command] else [] := by
  induction clients with
  | nil => rfl
  | cons j rest ih =>
    obtain ⟨fresh,distinct⟩ := List.nodup_cons.mp distinct
    by_cases same : j = i
    · subst same
      simp [ih distinct,fresh]
    · simpa [same,Ne.symm same] using ih distinct

section Benchmark
variable {s next : System ι} (inv : Inv s)
include inv

theorem Inv.broadcast (quiet : s.master.awaited = []) (later : s.master.state ≠ .init) {state : State}
    (asks : state = .setup ∨ state = .cleanup) {isFinal : Bool} {command : Command}
    (same : command = if state = .cleanup then .cleanup isFinal else .setup)
    (running : state = .cleanup → ∀ i ∈ s.master.clients, (s.nodes i).client.state = .running) :
    Inv (System.broadcast { s with master := { s.master with state := state, isFinal := isFinal } } command) where
  distinct := inv.distinct
  full _ := inv.full later
  listed _ member := member
  once := inv.distinct
  asked _ := asks
  flight i := by
    have silent := inv.silent quiet i
    obtain ⟨nothing,queue⟩ := List.append_eq_nil_iff.mp silent
    have sent := addressed command inv.distinct i
    subst same
    simp only [pending,System.broadcast,List.filter_append,List.map_append,nothing,queue,sent,
      List.nil_append,List.append_nil,current]
    rfl
  running i listed busy := by
    apply running _ i listed
    rcases busy with ⟨_,missing⟩ | run | ⟨state,_⟩
    · exact absurd listed missing
    · rcases asks with asks | asks <;> cases asks.symm.trans run
    · exact state
  alive := inv.alive

theorem request_inv (done : request s = some next) : Inv next := by
  unfold request State.cas at done
  split at done
  · rename_i ready
    cases done
    apply inv.broadcast (inv.quiet (by simp [ready]) (by simp [ready])) (by simp [ready]) (.inl rfl)
    · rfl
    · intro other
      cases other
  · cases done

theorem iteration_inv (done : iteration isFinal s = some next) : Inv next := by
  unfold iteration State.cas at done
  split at done
  · rename_i run
    cases done
    apply inv.broadcast (inv.quiet (by simp [run]) (by simp [run])) (by simp [run]) (.inr rfl)
    · rfl
    · intro _ i listed
      exact inv.running i listed (.inr (.inl run))
  · cases done

-- With no response missing the master may go on to another state.
theorem Inv.move (quiet : s.master.awaited = []) (later : s.master.state ≠ .init) {state : State}
    (apart : state ≠ .setup ∧ state ≠ .cleanup)
    (running : state = .run → ∀ i ∈ s.master.clients, (s.nodes i).client.state = .running) :
    Inv { s with master := { s.master with state := state } } := by
  refine inv_quiet quiet (inv.silent quiet) inv.distinct (fun _ => inv.full later) ?_ inv.alive
  rintro i listed (⟨setup,_⟩ | run | ⟨cleanup,_⟩)
  · exact absurd setup apart.1
  · exact running run i listed
  · exact absurd cleanup apart.2

theorem collected_inv (done : collected s = some next) : Inv next := by
  unfold collected State.cas at done
  split at done
  · rename_i quiet
    split at done
    · rename_i setup
      cases done
      refine inv.move quiet (by simp [setup]) (by simp) ?_
      intro _ i listed
      exact inv.running i listed (.inl ⟨setup,by simp [quiet]⟩)
    · cases done
  · cases done

theorem cleaned_inv (done : cleaned s = some next) : Inv next := by
  unfold cleaned State.cas at done
  split at done
  · rename_i quiet
    split at done
    · split at done
      · rename_i cleanup
        cases done
        refine inv.move quiet (by simp [cleanup]) (by simp) ?_
        intro other
        cases other
      · cases done
    · rename_i more
      split at done
      · rename_i cleanup
        cases done
        refine inv.move quiet (by simp [cleanup]) (by simp) ?_
        intro _ i listed
        exact inv.running i listed (.inr (.inr ⟨cleanup,.inr (by simpa using more)⟩))
      · cases done
  · cases done

-- A command on its way is the one that the master waits for, and the only one.
theorem Inv.carried (carried : command ∈ pending s i) :
    i ∈ s.master.awaited ∧ pending s i = [command] ∧ command = current s.master := by
  have only := inv.flight i
  split at only
  · rename_i waits
    rw [only] at carried
    cases List.mem_singleton.mp carried
    exact ⟨waits,only,rfl⟩
  · rw [only] at carried
    cases carried

theorem deliver_pending {node : Node} (sent : (i,command) ∈ s.rpcs)
    (queued : node.commands = (s.nodes i).commands ++ [command]) (j : ι) :
    pending { s with rpcs := s.rpcs.erase (i,command), nodes := Function.update s.nodes i node } j =
      pending s j := by
  unfold pending
  dsimp only
  rw [← List.erase_filter]
  by_cases same : j = i
  · subst same
    have inside : (j,command) ∈ s.rpcs.filter (fun rpc => rpc.1 = j) :=
      List.mem_filter.mpr ⟨sent,by simp⟩
    have carried : command ∈ pending s j :=
      List.mem_append_left _ (List.mem_map.mpr ⟨_,inside,rfl⟩)
    have only := (inv.carried carried).2.1
    -- One command in all, so the queue was empty.
    obtain ⟨before,after,split⟩ := List.append_of_mem inside
    unfold pending at only
    rw [split] at only ⊢
    obtain ⟨rfl,rfl,empty⟩ : before = [] ∧ after = [] ∧ (s.nodes j).commands = [] := by
      have long := congrArg List.length only
      simp only [List.length_append,List.length_map,List.length_cons,List.length_nil] at long
      exact ⟨List.eq_nil_of_length_eq_zero (by omega),List.eq_nil_of_length_eq_zero (by omega),
        List.eq_nil_of_length_eq_zero (by omega)⟩
    simp [queued,empty]
  · have apart : (i,command) ∉ s.rpcs.filter (fun rpc => rpc.1 = j) := by
      intro inside
      have owner := (List.mem_filter.mp inside).2
      exact same (by simpa using owner : i = j).symm
    rw [List.erase_of_not_mem apart,Function.update_of_ne same]

theorem deliver_inv (done : deliver i command s = some next) : Inv next := by
  unfold deliver at done
  dsimp only at done
  split at done
  · rename_i able
    cases done
    refine ⟨inv.distinct,inv.full,inv.listed,inv.once,inv.asked,?_,?_,?_⟩
    · intro j
      rw [deliver_pending inv able.1 rfl j]
      exact inv.flight j
    · intro j listed busy
      have before := inv.running j listed busy
      by_cases same : j = i
      · subst same
        simpa using before
      · simpa [same] using before
    · intro j
      by_cases same : j = i
      · subst same
        simpa using inv.alive j
      · simpa [same] using inv.alive j
  · cases done

-- The reply of a client that has done the command it was asked for.
theorem Inv.reply (waits : i ∈ s.master.awaited) (only : (s.nodes i).commands = [current s.master]) {node : Node}
    (empty : node.commands = []) (alive : node.panicked = false)
    (running : s.master.state = .setup ∨ s.master.state = .cleanup ∧ s.master.isFinal = false →
      node.client.state = .running) :
    Inv { s with
      master := { s.master with awaited := s.master.awaited.erase i }
      nodes := Function.update s.nodes i node } where
  distinct := inv.distinct
  full := inv.full
  listed j member := inv.listed j (List.mem_of_mem_erase member)
  once := inv.once.erase i
  asked _ := inv.asked (List.ne_nil_of_mem waits)
  flight j := by
    have before := inv.flight j
    unfold pending at before ⊢
    dsimp only
    by_cases same : j = i
    · subst same
      rw [only,if_pos waits] at before
      have nothing := List.append_left_eq_self.mp before
      simp [nothing,empty,inv.once.not_mem_erase]
    · rw [Function.update_of_ne same]
      simpa [List.mem_erase_of_ne same,current] using before
  running j listed busy := by
    by_cases same : j = i
    · subst same
      dsimp only
      rw [Function.update_self]
      apply running
      rcases busy with ⟨setup,_⟩ | run | ⟨cleanup,waiting | more⟩
      · exact .inl setup
      · rcases inv.asked (List.ne_nil_of_mem waits) with state | state <;> cases state.symm.trans run
      · exact absurd waiting inv.once.not_mem_erase
      · exact .inr ⟨cleanup,more⟩
    · dsimp only
      rw [Function.update_of_ne same]
      apply inv.running j listed
      simpa [Busy,List.mem_erase_of_ne same] using busy
  alive j := by
    by_cases same : j = i
    · subst same
      simpa using alive
    · simpa [same] using inv.alive j

theorem execute_inv (done : execute i data s = some next) : Inv next := by
  unfold execute at done
  dsimp only at done
  split at done
  · cases done
  split at done
  · cases done
  rename_i command rest queue
  have carried : command ∈ pending s i := by
    unfold pending
    simp [queue]
  obtain ⟨waits,only,asked⟩ := inv.carried carried
  have last : rest = [] := by
    unfold pending at only
    have long := congrArg List.length only
    simp only [queue,List.length_append,List.length_cons,List.length_nil] at long
    exact List.eq_nil_of_length_eq_zero (by omega)
  subst last
  rw [asked] at queue
  have state := inv.asked (List.ne_nil_of_mem waits)
  cases command with
  | setup =>
    cases done
    apply inv.reply waits queue
    · rfl
    · exact inv.alive i
    · intro _
      rfl
  | cleanup final =>
    have cleanup : s.master.state = .cleanup ∧ final = s.master.isFinal := by
      unfold current at asked
      split at asked
      · rename_i cleanup
        exact ⟨cleanup,Command.cleanup.inj asked⟩
      · cases asked
    have runs := inv.running i (inv.listed i waits) (.inr (.inr ⟨cleanup.1,.inl waits⟩))
    cases kind : final with
    | true =>
      rw [kind] at cleanup
      simp only [Client.cleanup,runs,kind,if_true] at done
      cases done
      apply inv.reply waits queue
      · rfl
      · exact inv.alive i
      · rintro (setup | ⟨_,more⟩)
        · cases cleanup.1.symm.trans setup
        · cases cleanup.2.trans more
    | false =>
      simp only [Client.cleanup,runs,kind] at done
      cases done
      apply inv.reply waits queue
      · rfl
      · exact inv.alive i
      · intro _
        rfl
  | shutdown =>
    unfold current at asked
    split at asked <;> cases asked

end Benchmark

-- A check-in that is handled is the first one of its client.
def Fresh (s : System ι) (event : Event ι) : Prop :=
  event = .handleCheckIn → ∀ i ∈ s.master.checkInQueue.head?, i ∉ s.master.clients

instance (s : System ι) (event : Event ι) : Decidable (Fresh s event) :=
  inferInstanceAs (Decidable (_ → ∀ i ∈ s.master.checkInQueue.head?, i ∉ s.master.clients))

theorem step_inv {s next : System ι} (inv : Inv s) (fresh : Fresh s event) (done : step s event = some next) :
    Inv next := by
  cases event with
  | checkin i => exact checkin_inv inv done
  | arrive i attempt => exact arrive_inv inv done
  | connected i => exact connected_inv inv done
  | refused i => exact refused_inv inv done
  | handleCheckIn => exact handleCheckIn_inv inv (fresh rfl) done
  | request => exact request_inv inv done
  | deliver i command => exact deliver_inv inv done
  | execute i data => exact execute_inv inv (show execute i data s = some next from done)
  | collected => exact collected_inv inv done
  | iteration isFinal => exact iteration_inv inv done
  | cleaned => exact cleaned_inv inv done

theorem reached_inv {s : System ι} (path : Reached step Fresh (.start waitFor) s) : Inv s :=
  path.invariant Inv (inv_start waitFor) fun _ _ _ inv fresh done => step_inv inv fresh done

theorem step_waitFor {s next : System ι} (done : step s event = some next) :
    next.master.waitFor = s.master.waitFor := by
  cases event with
  | handleCheckIn =>
    simp only [step,handleCheckIn] at done
    split at done
    · cases done
      simp
    · cases done
  | execute i data =>
    simp only [step,execute] at done
    repeat' split at done
    all_goals cases done
    all_goals rfl
  | _ =>
    simp only [step,checkin,arrive,connected,refused,request,deliver,collected,iteration,cleaned,State.cas] at done
    repeat' split at done
    all_goals cases done
    all_goals rfl

theorem reached_waitFor {allowed : System ι → Event ι → Prop} {s : System ι}
    (path : Reached step allowed (.start waitFor) s) : s.master.waitFor = waitFor :=
  path.invariant (fun s => s.master.waitFor = waitFor) rfl
    fun _ _ _ same _ done => (step_waitFor done).trans same

-- A master that is ready has the clients it waits for, each once. A cleanup
-- that waits at a client finds its benchmark running, and no client panicked.
def Safe (waitFor : ℕ) (s : System ι) : Prop :=
  (s.master.state = .ready → s.master.clients.length = waitFor ∧ s.master.clients.Nodup) ∧
    ∀ i, (s.nodes i).panicked = false ∧ ∀ final, Command.cleanup final ∈ (s.nodes i).commands →
      (s.nodes i).client.state = .running

theorem check_in_safe {s : System ι} (path : Reached step Fresh (.start waitFor) s) : Safe waitFor s := by
  have inv := reached_inv path
  refine ⟨?_,?_⟩
  · intro ready
    rw [← reached_waitFor path]
    exact ⟨inv.full (by simp [ready]),inv.distinct⟩
  · intro i
    refine ⟨inv.alive i,?_⟩
    intro final queued
    obtain ⟨waits,-,asked⟩ := inv.carried (List.mem_append_right _ queued)
    apply inv.running i (inv.listed i waits)
    unfold current at asked
    split at asked
    · rename_i cleanup
      exact .inr (.inr ⟨cleanup,.inl waits⟩)
    · cases asked

-- The first check-in arrives, but the client sees an error and checks in again.
def repeated : List (Event ℕ) :=
  [.checkin 1,.arrive 1 1,.refused 1,.checkin 1,.arrive 1 2,.connected 1,.handleCheckIn,.handleCheckIn]

def twoSetups : List (Event ℕ) :=
  [.request,.deliver 1 .setup,.deliver 1 .setup,.execute 1 "",.execute 1 "",.collected,.iteration true,
    .deliver 1 (.cleanup true),.deliver 1 (.cleanup true),.execute 1 "",.execute 1 ""]

theorem repeated_check_in_panics :
    (∃ s : System ℕ, Reached step (fun _ _ => True) (.start 2) s ∧ s.master.state = .ready ∧ ¬ s.master.clients.Nodup) ∧
    ∃ s : System ℕ, Reached step (fun _ _ => True) (.start 2) s ∧ (s.nodes 1).panicked = true := by
  constructor
  · obtain ⟨s,path,holds⟩ : ∃ s : System ℕ, Reached step (fun _ _ => True) (.start 2) s ∧
        decide (s.master.state = .ready ∧ ¬ s.master.clients.Nodup) = true :=
      runs_check repeated (by decide)
    exact ⟨s,path,of_decide_eq_true holds⟩
  · exact runs_check (repeated ++ twoSetups) (by decide)

-- The same benchmark with two clients that check in once each.
def twoClients : List (Event ℕ) :=
  [.checkin 1,.checkin 2,.arrive 2 1,.arrive 1 1,.handleCheckIn,.connected 1,.handleCheckIn,.connected 2,
    .request,.deliver 2 .setup,.execute 2 "",.deliver 1 .setup,.execute 1 "",.collected,.iteration true,
    .deliver 1 (.cleanup true),.execute 1 "",.deliver 2 (.cleanup true),.execute 2 "",.cleaned]

theorem two_clients_safe : ∃ s : System ℕ, Reached step Fresh (.start 2) s ∧ s.master.clients = [2,1] ∧
    (s.nodes 1).client.calls = [.setup,.prepareIteration,.cleanupIteration true] ∧ Safe 2 s := by
  obtain ⟨s,path,holds⟩ : ∃ s : System ℕ, Reached step Fresh (.start 2) s ∧ decide (s.master.clients = [2,1] ∧
      (s.nodes 1).client.calls = [.setup,.prepareIteration,.cleanupIteration true]) = true :=
    runs_check twoClients (by decide)
  obtain ⟨clients,calls⟩ := of_decide_eq_true holds
  exact ⟨s,path,clients,calls,check_in_safe path⟩

end KompicsBenches.CheckInRuns
