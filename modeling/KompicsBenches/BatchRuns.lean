import KompicsBenches.SizedThroughput

namespace KompicsBenches.SizedThroughput

open GuardedRuns

variable {p : Params} {s next : System}

-- What the runs up to number `d` left in a log.
def past {α : Type} (block : ℕ → List α) (d : ℕ) : List α := (List.range' 1 d).flatMap block

theorem past_succ {α : Type} (block : ℕ → List α) (d : ℕ) : past block (d + 1) = past block d ++ block (d + 1) := by
  simp [past,List.range'_1_concat,add_comm 1 d]

theorem past_of_run {α : Type} {key : α → ℕ} {block : ℕ → List α} (keys : ∀ r, ∀ x ∈ block r, key x = r) (d r : ℕ) :
    (past block d).filter (fun x => key x = r) = if 1 ≤ r ∧ r ≤ d then block r else [] := by
  induction d with
  | zero =>
    rw [if_neg (by omega)]
    rfl
  | succ d ih =>
    rw [past_succ,List.filter_append,ih]
    by_cases last : d + 1 = r
    · subst last
      rw [if_neg (by omega),if_pos (by omega),List.nil_append]
      apply List.filter_eq_self.mpr
      intro x inside
      exact decide_eq_true (keys _ x inside)
    · have none_there : (block (d + 1)).filter (fun x => key x = r) = [] := by
        apply List.filter_eq_nil_iff.mpr
        intro x inside
        simpa [keys _ x inside] using last
      rw [none_there,List.append_nil]
      split <;> split <;> first | rfl | omega

theorem mem_past {α : Type} {block : ℕ → List α} {d : ℕ} {x : α} :
    x ∈ past block d ↔ ∃ r, 1 ≤ r ∧ r ≤ d ∧ x ∈ block r := by
  simp only [past,List.mem_flatMap,List.mem_range'_1]
  constructor
  · rintro ⟨r,⟨low,high⟩,inside⟩
    exact ⟨r,low,by omega,inside⟩
  · rintro ⟨r,low,high,inside⟩
    exact ⟨r,⟨low,by omega⟩,inside⟩

theorem labels_succ (p : Params) (r number : ℕ) :
    labels p r (number + 1) = labels p r number ++ List.replicate p.batchSize (r,number) := by
  simp [labels,batches,List.range_succ]

theorem labels_run : ∀ label ∈ labels p r number, label.1 = r := by
  intro label inside
  obtain ⟨_,-,rfl⟩ := List.mem_map.mp inside
  rfl

def acks (r number : ℕ) : List (ℕ × Label) := (List.range number).map fun batch => (r,(r,batch))

theorem acks_run : ∀ entry ∈ acks r number, entry.1 = r ∧ entry.2.1 = r := by
  intro entry inside
  obtain ⟨_,-,rfl⟩ := List.mem_map.mp inside
  exact ⟨rfl,rfl⟩

-- The batches that the sink has not got, the first of them perhaps in part.
def Flowing (batchSize received : ℕ) (down : List Label) : List Label → Prop
  | [] => down = [] ∧ received = 0
  | label :: rest => received < batchSize ∧
      down = List.replicate (batchSize - received) label ++ rest.flatMap (List.replicate batchSize)

theorem Flowing.sent {batches : List Label} (flowing : Flowing batchSize received down batches)
    (some_message : 0 < batchSize) (label : Label) :
    Flowing batchSize received (down ++ List.replicate batchSize label) (batches ++ [label]) := by
  cases batches with
  | nil =>
    obtain ⟨rfl,rfl⟩ := flowing
    exact ⟨some_message,by simp⟩
  | cons first rest =>
    obtain ⟨partly,rfl⟩ := flowing
    exact ⟨partly,by simp⟩

-- One message more, and an acknowledgement for the last one of a batch.
theorem Flowing.message {batches : List Label} {sink : SizedThroughputSink}
    (flowing : Flowing p.batchSize sink.received (label :: down) batches)
    (some_message : 0 < p.batchSize) :
    ∃ rest, batches = label :: rest ∧ if (sink.receive p).2 then Flowing p.batchSize (sink.receive p).1.received down rest
      else Flowing p.batchSize (sink.receive p).1.received down batches := by
  cases batches with
  | nil => cases flowing.1
  | cons first rest =>
    obtain ⟨partly,shape⟩ := flowing
    obtain ⟨left,more⟩ : ∃ left, p.batchSize - sink.received = left + 1 := ⟨p.batchSize - sink.received - 1,by omega⟩
    rw [more,List.replicate_succ,List.cons_append,List.cons.injEq] at shape
    obtain ⟨rfl,rfl⟩ := shape
    refine ⟨rest,rfl,?_⟩
    unfold SizedThroughputSink.receive
    dsimp only
    split
    · rename_i full
      have last : left = 0 := by omega
      subst last
      cases rest with
      | nil => exact ⟨rfl,rfl⟩
      | cons second rest => exact ⟨some_message,by simp⟩
    · rename_i open_batch
      refine ⟨?_,?_⟩
      · dsimp only
        omega
      · have rest_left : p.batchSize - (sink.received + 1) = left := by omega
        dsimp only
        rw [rest_left]

-- Between two runs nothing is under way but perhaps the next command.
structure Resting (p : Params) (s : System) : Prop where
  down : s.down = []
  up : s.up = []
  received : s.sink.received = 0
  released : s.released = List.range' 1 s.handled
  sent : s.sent = past (fun r => labels p r p.numberOfBatches) s.handled
  counted : s.counted = past (fun r => acks r p.numberOfBatches) s.handled
  commands : s.commands = [] ∧ s.runs = s.handled ∨ s.commands = [s.handled + 1] ∧ s.runs = s.handled + 1

-- A run keeps two batches under way until all are sent.
structure Streaming (p : Params) (s : System) (before : ℕ) : Prop where
  handled : s.handled = before + 1
  runs : s.runs = before + 1
  commands : s.commands = []
  latch : s.source.latch = some (before + 1)
  unfinished : s.source.ackedBatches < p.numberOfBatches
  ahead : s.source.sentBatches = min p.numberOfBatches (s.source.ackedBatches + 2)
  flowing : ∃ batches, Flowing p.batchSize s.sink.received s.down batches ∧
    s.up ++ batches = (List.range' s.source.ackedBatches (s.source.sentBatches - s.source.ackedBatches)).map
      fun batch => (before + 1,batch)
  released : s.released = List.range' 1 before
  sent : s.sent = past (fun r => labels p r p.numberOfBatches) before ++ labels p (before + 1) s.source.sentBatches
  counted : s.counted = past (fun r => acks r p.numberOfBatches) before ++ acks (before + 1) s.source.ackedBatches

def Stage (p : Params) (s : System) : Prop := Resting p s ∨ ∃ before, Streaming p s before

theorem resting_start (p : Params) : Resting p System.start where
  down := rfl
  up := rfl
  received := rfl
  released := rfl
  sent := rfl
  counted := rfl
  commands := .inl ⟨rfl,rfl⟩

theorem stage_run (stage : Stage p s) (done : run s = some next) : Stage p next := by
  unfold run at done
  split at done
  · rename_i waited
    cases done
    rcases stage with resting | ⟨before,streaming⟩
    · rw [resting.released,List.length_range'] at waited
      obtain ⟨down,up,received,released,sent,counted,none_left | one_left⟩ := resting
      · refine .inl ⟨down,up,received,released,sent,counted,.inr ⟨?_,?_⟩⟩
        · dsimp only
          rw [none_left.1,none_left.2,List.nil_append]
        · dsimp only
          rw [none_left.2]
      · omega
    · rw [streaming.released,List.length_range',streaming.runs] at waited
      omega
  · cases done

theorem window_succ (h a b : ℕ) (more : a ≤ b) : (List.range' a (b + 1 - a)).map (fun batch => (h,batch)) =
    (List.range' a (b - a)).map (fun batch => (h,batch)) ++ [(h,b)] := by
  rw [show b + 1 - a = b - a + 1 by omega,List.range'_1_concat,List.map_append,show a + (b - a) = b by omega]
  rfl

theorem window_cons (h a b : ℕ) (some_left : a < b) : (List.range' a (b - a)).map (fun batch => (h,batch)) =
    (h,a) :: (List.range' (a + 1) (b - (a + 1))).map (fun batch => (h,batch)) := by
  rw [show b - a = b - (a + 1) + 1 by omega,List.range'_succ]
  rfl

theorem command_cons {rest : List ℕ} (head : s.commands = latch :: rest) : command p s = some { s with
    source := ⟨some latch,2,0⟩
    handled := s.handled + 1
    commands := rest
    down := s.down ++ labels p (s.handled + 1) 2
    sent := s.sent ++ labels p (s.handled + 1) 2 } := by
  rw [command,head]
  simp [SizedThroughputSource.receive,SizedThroughputSource.send,System.sends,labels,batches,List.range_succ]

theorem message_cons {down : List Label} (head : s.down = label :: down) : message p s = some { s with
    sink := (s.sink.receive p).1
    down := down
    up := if (s.sink.receive p).2 then s.up ++ [label] else s.up } := by
  rw [message,head]

-- An acknowledgement lets the next batch go, ends the run, or is one before the last.
theorem ack_more {up : List Label} (head : s.up = label :: up)
    (more : s.source.sentBatches < p.numberOfBatches) : ack p s = some { s with
      source := ⟨s.source.latch,s.source.sentBatches + 1,s.source.ackedBatches + 1⟩
      up := up
      down := s.down ++ List.replicate p.batchSize (s.handled,s.source.sentBatches)
      sent := s.sent ++ List.replicate p.batchSize (s.handled,s.source.sentBatches)
      counted := s.counted ++ [(s.handled,label)] } := by
  rw [ack,head]
  simp [SizedThroughputSource.receive,SizedThroughputSource.send,System.sends,more]

theorem ack_last {up : List Label} (head : s.up = label :: up) (all : ¬s.source.sentBatches < p.numberOfBatches)
    (last : s.source.ackedBatches + 1 = p.numberOfBatches) (held : s.source.latch = some latch) :
    ack p s = some { s with
      source := ⟨none,s.source.sentBatches,s.source.ackedBatches + 1⟩
      up := up
      counted := s.counted ++ [(s.handled,label)]
      released := s.released ++ [latch] } := by
  rw [ack,head]
  simp [SizedThroughputSource.receive,System.sends,all,last,held]

theorem ack_waits {up : List Label} (head : s.up = label :: up) (all : ¬s.source.sentBatches < p.numberOfBatches)
    (open_run : s.source.ackedBatches + 1 ≠ p.numberOfBatches) : ack p s = some { s with
      source := ⟨s.source.latch,s.source.sentBatches,s.source.ackedBatches + 1⟩
      up := up
      counted := s.counted ++ [(s.handled,label)] } := by
  rw [ack,head]
  simp [SizedThroughputSource.receive,System.sends,all,open_run]

section Batches
variable (some_message : 0 < p.batchSize) (two : 2 ≤ p.numberOfBatches)
include some_message

include two in
theorem stage_command (stage : Stage p s) (done : command p s = some next) : Stage p next := by
  rcases stage with resting | ⟨before,streaming⟩
  · obtain ⟨down,up,received,released,sent,counted,none_left | one_left⟩ := resting
    · rw [command,none_left.1] at done
      cases done
    · rw [command_cons one_left.1] at done
      cases done
      refine .inr ⟨s.handled,rfl,one_left.2,rfl,rfl,?_,?_,⟨[(s.handled + 1,0),(s.handled + 1,1)],?_,?_⟩,released,?_,?_⟩
      · exact Nat.lt_of_lt_of_le Nat.zero_lt_two two
      · exact (Nat.min_eq_right two).symm
      · dsimp only
        rw [received,down]
        refine ⟨some_message,?_⟩
        simp [labels,batches,List.range_succ]
      · dsimp only
        rw [up]
        rfl
      · dsimp only
        rw [sent]
      · dsimp only
        rw [counted]
        simp [acks]
  · rw [command,streaming.commands] at done
    cases done

theorem stage_message (stage : Stage p s) (done : message p s = some next) : Stage p next := by
  rcases stage with resting | ⟨before,streaming⟩
  · rw [message,resting.down] at done
    cases done
  · obtain ⟨handled,runs,commands,latch,unfinished,ahead,⟨batches,flowing,window⟩,released,sent,counted⟩ := streaming
    cases queue : s.down with
    | nil =>
      rw [message,queue] at done
      cases done
    | cons label down =>
      rw [queue] at flowing
      rw [message_cons queue] at done
      obtain ⟨rest,rfl,after⟩ := flowing.message some_message
      cases done
      by_cases full : (s.sink.receive p).2 = true
      · rw [if_pos full] at after
        refine .inr ⟨before,handled,runs,commands,latch,unfinished,ahead,⟨rest,after,?_⟩,released,sent,counted⟩
        simpa [full] using window
      · rw [if_neg full] at after
        refine .inr ⟨before,handled,runs,commands,latch,unfinished,ahead,⟨label :: rest,after,?_⟩,released,sent,counted⟩
        simpa [full] using window

theorem stage_ack (stage : Stage p s) (done : ack p s = some next) : Stage p next := by
  rcases stage with resting | ⟨before,streaming⟩
  · rw [ack,resting.up] at done
    cases done
  · obtain ⟨handled,runs,commands,latch,unfinished,ahead,⟨batches,flowing,window⟩,released,sent,counted⟩ := streaming
    cases queue : s.up with
    | nil =>
      rw [ack,queue] at done
      cases done
    | cons label up =>
      have behind : s.source.ackedBatches < s.source.sentBatches := by omega
      rw [queue,window_cons _ _ _ behind,List.cons_append,List.cons.injEq] at window
      obtain ⟨rfl,window⟩ := window
      have count : s.counted ++ [(s.handled,(before + 1,s.source.ackedBatches))] =
          past (fun r => acks r p.numberOfBatches) before ++ acks (before + 1) (s.source.ackedBatches + 1) := by
        rw [counted,handled]
        simp [acks,List.range_succ]
      by_cases more : s.source.sentBatches < p.numberOfBatches
      · rw [ack_more queue more] at done
        cases done
        refine .inr ⟨before,handled,runs,commands,latch,?_,?_,⟨batches ++ [(before + 1,s.source.sentBatches)],?_,?_⟩,
          released,?_,count⟩
        · dsimp only
          omega
        · dsimp only
          omega
        · dsimp only
          rw [handled]
          exact flowing.sent some_message _
        · dsimp only
          rw [window_succ _ _ _ behind,← List.append_assoc,window]
        · dsimp only
          rw [labels_succ,sent,handled,List.append_assoc]
      · by_cases last : s.source.ackedBatches + 1 = p.numberOfBatches
        · rw [ack_last queue more last latch] at done
          cases done
          have none_left : up ++ batches = [] := by
            rw [window,show s.source.sentBatches - (s.source.ackedBatches + 1) = 0 by omega]
            rfl
          obtain ⟨rfl,rfl⟩ := List.append_eq_nil_iff.mp none_left
          refine .inl ⟨flowing.1,rfl,flowing.2,?_,?_,?_,.inl ⟨commands,?_⟩⟩
          · dsimp only
            rw [released,handled,List.range'_1_concat,add_comm 1 before]
          · dsimp only
            rw [sent,handled,past_succ,show s.source.sentBatches = p.numberOfBatches by omega]
          · dsimp only
            rw [count,handled,past_succ,last]
          · rw [runs,handled]
        · rw [ack_waits queue more last] at done
          cases done
          refine .inr ⟨before,handled,runs,commands,latch,?_,?_,⟨batches,flowing,window⟩,released,sent,count⟩
          · dsimp only
            omega
          · dsimp only
            omega

include two in
theorem stage_step (stage : Stage p s) (done : step p s event = some next) : Stage p next := by
  cases event with
  | run => exact stage_run stage done
  | command => exact stage_command some_message two stage done
  | message => exact stage_message some_message stage done
  | ack => exact stage_ack some_message stage done

include two in
theorem reached_stage (path : Reached (step p) (fun _ _ => True) System.start s) : Stage p s := by
  apply path.invariant (Stage p)
  · exact .inl (resting_start p)
  · intro s event next stage _ done
    exact stage_step some_message two stage done

end Batches

-- What the logs say about one run, when `before` runs are done and the last one has
-- got as far as `number`.
theorem sent_of_run (r before number : ℕ) :
    (past (fun r => labels p r p.numberOfBatches) before ++ labels p (before + 1) number).filter
      (fun label => label.1 = r) =
        labels p r (if 1 ≤ r ∧ r ≤ before then p.numberOfBatches else if r = before + 1 then number else 0) := by
  rw [List.filter_append,past_of_run (fun _ => labels_run)]
  by_cases now : r = before + 1
  · subst now
    rw [if_neg (by omega),if_neg (by omega),if_pos rfl,List.nil_append]
    apply List.filter_eq_self.mpr
    intro label inside
    exact decide_eq_true (labels_run label inside)
  · have others : (labels p (before + 1) number).filter (fun label => label.1 = r) = [] := by
      apply List.filter_eq_nil_iff.mpr
      intro label inside
      rw [labels_run label inside,decide_eq_true_eq]
      exact fun same => now same.symm
    rw [others,List.append_nil,if_neg now]
    split <;> rfl

theorem counted_of_run (number : ℕ) (done : 1 ≤ r ∧ r ≤ before) :
    (past (fun r => acks r p.numberOfBatches) before ++ acks (before + 1) number).filter (fun entry => entry.1 = r) =
      acks r p.numberOfBatches := by
  rw [List.filter_append,past_of_run (fun _ entry inside => (acks_run entry inside).1),if_pos done]
  have others : (acks (before + 1) number).filter (fun entry => entry.1 = r) = [] := by
    apply List.filter_eq_nil_iff.mpr
    intro entry inside
    rw [(acks_run entry inside).1,decide_eq_true_eq]
    omega
  rw [others,List.append_nil]

-- The logs decide all but how a run ends.
theorem exact_of_logs (number acked : ℕ) (released : s.released = List.range' 1 before)
    (sent : s.sent = past (fun r => labels p r p.numberOfBatches) before ++ labels p (before + 1) number)
    (counted : s.counted = past (fun r => acks r p.numberOfBatches) before ++ acks (before + 1) acked)
    (bound : number ≤ p.numberOfBatches) (behind : before ≤ s.runs)
    (ends : s.commands = [] → s.down = [] → s.up = [] → s.runs = before)
    (answers : (s.commands ≠ [] → (command p s).isSome) ∧ (s.up ≠ [] → (ack p s).isSome)) : Exact p s where
  sends r := by
    rw [sent,sent_of_run]
    refine ⟨_,?_,rfl⟩
    split
    · exact le_rfl
    · split
      · exact bound
      · exact Nat.zero_le _
  all r member := by
    rw [released,List.mem_range'_1] at member
    rw [sent,sent_of_run,if_pos (by omega)]
  acked r member := by
    rw [released,List.mem_range'_1] at member
    rw [counted,counted_of_run _ (by omega)]
    rfl
  own entry member := by
    rw [counted] at member
    rcases List.mem_append.mp member with done | now
    · obtain ⟨r,-,-,inside⟩ := mem_past.mp done
      rw [(acks_run entry inside).1,(acks_run entry inside).2]
    · rw [(acks_run entry now).1,(acks_run entry now).2]
  once := by
    rw [released]
    refine ⟨List.nodup_range',?_⟩
    intro r member
    rw [List.mem_range'_1] at member
    omega
  ends none_asked none_down none_up r low high := by
    rw [released,List.mem_range'_1]
    have all := ends none_asked none_down none_up
    omega
  answers := answers

theorem Resting.exact (resting : Resting p s) : Exact p s := by
  obtain ⟨down,up,received,released,sent,counted,commands⟩ := resting
  apply exact_of_logs 0 0 released
  · rw [sent]
    simp [labels,batches]
  · rw [counted]
    simp [acks]
  · exact Nat.zero_le _
  · omega
  · intro none_asked _ _
    rcases commands with none_left | one_left
    · exact none_left.2
    · rw [one_left.1] at none_asked
      cases none_asked
  · refine ⟨?_,fun some_ack => absurd up some_ack⟩
    intro asked
    rcases commands with none_left | one_left
    · exact absurd none_left.1 asked
    · rw [command_cons one_left.1]
      rfl

theorem Streaming.exact (streaming : Streaming p s before) : Exact p s := by
  obtain ⟨handled,runs,commands,latch,unfinished,ahead,⟨batches,flowing,window⟩,released,sent,counted⟩ := streaming
  apply exact_of_logs _ _ released sent counted
  · omega
  · omega
  · intro _ none_down none_up
    -- A run that is not finished keeps a batch under way.
    have behind : s.source.ackedBatches < s.source.sentBatches := by omega
    rw [none_up,List.nil_append,window_cons _ _ _ behind] at window
    rw [none_down,window] at flowing
    obtain ⟨partly,shape⟩ := flowing
    have empty := (List.append_eq_nil_iff.mp shape.symm).1
    rw [List.replicate_eq_nil_iff] at empty
    omega
  · refine ⟨fun asked => absurd commands asked,?_⟩
    intro some_ack
    obtain ⟨label,up,queue⟩ := List.exists_cons_of_ne_nil some_ack
    by_cases more : s.source.sentBatches < p.numberOfBatches
    · rw [ack_more queue more]
      rfl
    · by_cases last : s.source.ackedBatches + 1 = p.numberOfBatches
      · rw [ack_last queue more last latch]
        rfl
      · rw [ack_waits queue more last]
        rfl

theorem labels_length (p : Params) (r number : ℕ) : (labels p r number).length = number * p.batchSize := by
  simp [labels,batches,List.length_flatMap]

theorem first_run (p : Params) : ∃ s, Reached (step p) (fun _ _ => True) System.start s ∧ s.sent = labels p 1 2 := by
  let asked : System := { System.start with runs := 1, commands := [1] }
  have first : Reached (step p) (fun _ _ => True) System.start asked :=
    .step .start trivial (show step p System.start .run = some asked from rfl)
  obtain ⟨next,done,sent⟩ : ∃ next, command p asked = some next ∧ next.sent = labels p 1 2 :=
    ⟨_,command_cons (show asked.commands = [1] from rfl),rfl⟩
  exact ⟨next,.step first trivial (show step p asked .command = some next from done),sent⟩

-- With one batch already the first run sends one too many.
theorem throughput_exact_iff (p : Params) (some_message : 1 ≤ p.batchSize) (some_batch : 1 ≤ p.numberOfBatches) :
    (∀ s, Reached (step p) (fun _ _ => True) System.start s → Exact p s) ↔ 2 ≤ p.numberOfBatches := by
  constructor
  · intro exact
    obtain ⟨s,path,first⟩ := first_run p
    obtain ⟨number,few,sent⟩ := (exact s path).sends 1
    have all : (labels p 1 2).filter (fun label => label.1 = 1) = labels p 1 2 :=
      List.filter_eq_self.mpr fun label inside => decide_eq_true (labels_run label inside)
    rw [first,all] at sent
    have sizes := congrArg List.length sent
    rw [labels_length,labels_length] at sizes
    have same := Nat.eq_of_mul_eq_mul_right some_message sizes
    omega
  · intro two s path
    rcases reached_stage some_message two path with resting | ⟨before,streaming⟩
    · exact resting.exact
    · exact streaming.exact

-- The second acknowledgement of the first run ends the second one.
def overlapping : List Event := [.run,.command,.message,.ack,.run,.command,.message,.ack]

theorem stale_ack_counted : ∃ s, Reached (step ⟨1,1⟩) (fun _ _ => True) System.start s ∧
    s.counted = [(1,(1,0)),(2,(1,1))] ∧ s.released = [1,2] ∧ ¬Exact ⟨1,1⟩ s := by
  obtain ⟨s,path,logs⟩ : ∃ s : System, Reached (step ⟨1,1⟩) (fun _ _ => True) System.start s ∧
      decide (s.counted = [(1,(1,0)),(2,(1,1))] ∧ s.released = [1,2]) = true :=
    runs_check overlapping (by decide)
  obtain ⟨counted,released⟩ := of_decide_eq_true logs
  refine ⟨s,path,counted,released,?_⟩
  intro exact
  have own := exact.own (2,(1,1)) (by rw [counted]; simp)
  contradiction

-- Two runs of two batches with two messages each.
def twoRuns : List Event :=
  let one : List Event := [.run,.command,.message,.message,.message,.ack,.message,.ack]
  one ++ one

theorem two_runs_exact : ∃ s, Reached (step ⟨2,2⟩) (fun _ _ => True) System.start s ∧ s.released = [1,2] ∧
    Exact ⟨2,2⟩ s := by
  obtain ⟨s,path,released⟩ : ∃ s : System, Reached (step ⟨2,2⟩) (fun _ _ => True) System.start s ∧
      decide (s.released = [1,2]) = true :=
    runs_check twoRuns (by decide)
  exact ⟨s,path,of_decide_eq_true released,
    (throughput_exact_iff ⟨2,2⟩ (by decide) (by decide)).mpr (by decide) s path⟩

end KompicsBenches.SizedThroughput
