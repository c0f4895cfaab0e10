import KompicsBenches.Chameneos

namespace KompicsBenches.Chameneos

open GuardedRuns Custody

variable {n : ℕ} {late : ChameneosMallActor n → Fin n → ChameneosMallActor n × List (Envelope n)}
  {s next : System n}

-- All that one step can do.
inductive Move (late : ChameneosMallActor n → Fin n → ChameneosMallActor n × List (Envelope n)) (s : System n) :
    Event n → System n → Prop where
  | start (i : Fin n) : i ∉ s.started → Move late s (.start i) { s with
      started := insert i s.started
      net := s.net + {.mall (.meet (s.chameneos i).colour i)} }
  | fade (count : UInt64) : .mall (.meetingCount count) ∈ s.net → s.mall.numFaded + 1 ≠ n →
      Move late s (.deliver (.mall (.meetingCount count))) { s with
        mall := { s.mall with numFaded := s.mall.numFaded + 1, sumMeetings := s.mall.sumMeetings + count }
        net := s.net.erase (.mall (.meetingCount count)) }
  | finish (count : UInt64) : .mall (.meetingCount count) ∈ s.net → s.mall.numFaded + 1 = n → s.mall.latch ≠ 0 →
      Move late s (.deliver (.mall (.meetingCount count))) { s with
        mall := { s.mall with
          numFaded := s.mall.numFaded + 1
          sumMeetings := s.mall.sumMeetings + count
          latch := s.mall.latch - 1 }
        net := s.net.erase (.mall (.meetingCount count)) }
  | pair (colour : ChameneosColour) (i other : Fin n) : .mall (.meet colour i) ∈ s.net →
      s.mall.meetingsCount < s.mall.numMeetings → s.mall.waitingChameneo = some other →
      Move late s (.deliver (.mall (.meet colour i))) { s with
        mall := { s.mall with waitingChameneo := none, meetingsCount := s.mall.meetingsCount + 1 }
        net := s.net.erase (.mall (.meet colour i)) + {.chameneo other (.meet colour i)} }
  | wait (colour : ChameneosColour) (i : Fin n) : .mall (.meet colour i) ∈ s.net →
      s.mall.meetingsCount < s.mall.numMeetings → s.mall.waitingChameneo = none →
      Move late s (.deliver (.mall (.meet colour i))) { s with
        mall := { s.mall with waitingChameneo := some i }
        net := s.net.erase (.mall (.meet colour i)) }
  | late (colour : ChameneosColour) (i : Fin n) : .mall (.meet colour i) ∈ s.net →
      ¬s.mall.meetingsCount < s.mall.numMeetings →
      Move late s (.deliver (.mall (.meet colour i))) { s with
        mall := (late s.mall i).1
        net := s.net.erase (.mall (.meet colour i)) + (late s.mall i).2 }
  | drop (i : Fin n) (msg : ChameneoMsg n) : .chameneo i msg ∈ s.net → i ∈ s.dead →
      Move late s (.deliver (.chameneo i msg)) { s with net := s.net.erase (.chameneo i msg) }
  | met (i other : Fin n) (colour : ChameneosColour) : .chameneo i (.meet colour other) ∈ s.net →
      Move late s (.deliver (.chameneo i (.meet colour other))) { s with
        chameneos := Function.update s.chameneos i
          ⟨(s.chameneos i).colour.complement colour,(s.chameneos i).meetings + 1⟩
        net := s.net.erase (.chameneo i (.meet colour other)) +
          {.chameneo other (.change ((s.chameneos i).colour.complement colour)),
            .mall (.meet ((s.chameneos i).colour.complement colour) i)} }
  | change (i : Fin n) (colour : ChameneosColour) : .chameneo i (.change colour) ∈ s.net →
      Move late s (.deliver (.chameneo i (.change colour))) { s with
        chameneos := Function.update s.chameneos i ⟨colour,(s.chameneos i).meetings + 1⟩
        net := s.net.erase (.chameneo i (.change colour)) + {.mall (.meet colour i)} }
  | exit (i : Fin n) : .chameneo i .exit ∈ s.net →
      Move late s (.deliver (.chameneo i .exit)) { s with
        chameneos := Function.update s.chameneos i { s.chameneos i with colour := .faded }
        exited := insert i s.exited
        net := s.net.erase (.chameneo i .exit) + {.mall (.meetingCount (s.chameneos i).meetings)}
        counted := i ::ₘ s.counted }
  | die (i : Fin n) : i ∈ s.exited → Move late s (.die i) { s with dead := insert i s.dead }

theorem toMall_move (present : .mall msg ∈ s.net) (done : s.toMall late msg = some next) :
    Move late s (.deliver (.mall msg)) next := by
  unfold System.toMall at done
  cases msg with
  | meetingCount count =>
    simp only [ChameneosMallActor.receive] at done
    split at done
    · rename_i last
      split at done
      · cases done
      · rename_i up
        cases done
        simpa using Move.finish count present last up
    · rename_i more
      cases done
      simpa using Move.fade count present more
  | meet colour i =>
    simp only [ChameneosMallActor.receive] at done
    split at done
    · rename_i early
      cases waiting : s.mall.waitingChameneo with
      | none =>
        rw [waiting] at done
        cases done
        simpa using Move.wait colour i present early waiting
      | some other =>
        rw [waiting] at done
        cases done
        exact .pair colour i other present early waiting
    · rename_i closed
      cases done
      exact .late colour i present closed

theorem toChameneo_move (present : .chameneo i msg ∈ s.net) (done : s.toChameneo i msg = some next) :
    Move late s (.deliver (.chameneo i msg)) next := by
  unfold System.toChameneo at done
  split at done
  · rename_i dead
    cases done
    exact .drop i msg present dead
  · split at done
    · cases msg with
      | meet colour other =>
        cases done
        exact .met i other colour present
      | change colour =>
        cases done
        exact .change i colour present
      | exit =>
        cases done
        exact .exit i present
    · cases done

theorem step_move (done : step late s event = some next) : Move late s event next := by
  cases event with
  | start i =>
    simp only [step,onStart] at done
    split at done
    · cases done
    · rename_i fresh
      cases done
      exact .start i fresh
  | deliver x =>
    simp only [step] at done
    split at done
    · rename_i present
      cases x with
      | mall msg => exact toMall_move present done
      | chameneo i msg => exact toChameneo_move present done
    · cases done
  | die i =>
    simp only [step] at done
    split at done
    · rename_i exited
      cases done
      exact .die i exited
    · cases done

-- The chameneos that a message stands for: no other message does.
def whereabouts : Envelope n → Multiset (Fin n)
  | .mall (.meetingCount _) => 0
  | .mall (.meet _ i) => {i}
  | .chameneo i (.meet _ other) => {i,other}
  | .chameneo i (.change _) => {i}
  | .chameneo i .exit => {i}

-- Those that a meeting still has to be counted for.
def meeters : Envelope n → Multiset (Fin n)
  | .mall _ => 0
  | .chameneo i (.meet _ other) => {i,other}
  | .chameneo i (.change _) => {i}
  | .chameneo _ .exit => 0

def credit : Envelope n → UInt64
  | .mall (.meetingCount count) => count
  | .mall (.meet _ _) => 0
  | .chameneo _ (.meet _ _) => 2
  | .chameneo _ (.change _) => 1
  | .chameneo _ .exit => 0

def farewells : Envelope n → ℕ
  | .mall (.meetingCount _) => 1
  | _ => 0

-- A late chameneo changes no count of the mall, and only exits are sent for it.
structure Parts (late : ChameneosMallActor n → Fin n → ChameneosMallActor n × List (Envelope n)) : Prop where
  mall : ∀ m i, ∃ sent, (late m i).1 = { m with sentExit := sent }
  sends : ∀ m i, ∀ x ∈ (late m i).2, ∃ j, x = .chameneo j .exit

theorem parts_actor : Parts (ActorChameneos.late : ChameneosMallActor n → _) where
  mall m _ := ⟨m.sentExit,rfl⟩
  sends _ i _ member := ⟨i,List.mem_singleton.mp member⟩

theorem parts_mixed : Parts (MixedChameneos.late : ChameneosMallActor n → _) where
  mall m _ := by
    unfold MixedChameneos.late
    split
    · exact ⟨m.sentExit,rfl⟩
    · exact ⟨true,rfl⟩
  sends m _ x member := by
    unfold MixedChameneos.late at member
    split at member
    · cases member
    · obtain ⟨j,-,rfl⟩ := List.mem_map.mp member
      exact ⟨j,rfl⟩

theorem Parts.carries_nothing {M : Type*} [AddCommMonoid M] {load : Envelope n → M} (parts : Parts late)
    (light : ∀ j, load (.chameneo j .exit) = 0) (m : ChameneosMallActor n) (i : Fin n) :
    carried load ((late m i).2 : Multiset (Envelope n)) = 0 := by
  apply carried_eq_zero
  intro x member
  obtain ⟨j,rfl⟩ := parts.sends m i x (Multiset.mem_coe.mp member)
  exact light j

-- Every meeting is counted at the mall, on its way there, at a chameneo, or in the
-- messages of the meeting itself: twice in all.
structure Tally (numMeetings : UInt64) (s : System n) : Prop where
  meetings : s.mall.sumMeetings + ∑ i ∈ s.exitedᶜ, (s.chameneos i).meetings + carried credit s.net =
    s.mall.meetingsCount + s.mall.meetingsCount
  faded : s.mall.numFaded + carried farewells s.net = s.exited.card
  counted : s.counted = s.exited.val
  dead : s.dead ⊆ s.exited
  asked : s.mall.numMeetings = numMeetings
  bound : s.mall.meetingsCount ≤ numMeetings
  latch : s.mall.latch = 1 ∧ (s.mall.numFaded < n ∨ n = 0) ∨ s.mall.latch = 0 ∧ 0 < n ∧ s.mall.numFaded = n

theorem tally_start (n : ℕ) (numMeetings : UInt64) : Tally numMeetings (System.start n numMeetings) where
  meetings := by simp [System.start,ChameneosMallActor.create]
  faded := by simp [System.start,ChameneosMallActor.create]
  counted := by simp [System.start]
  dead := by simp [System.start]
  asked := rfl
  bound := by simp [System.start,ChameneosMallActor.create]
  latch := .inl ⟨rfl,(Nat.eq_zero_or_pos n).symm⟩

theorem meetings_update {f : Fin n → ChameneoActor} {away : Finset (Fin n)} (here : i ∉ away) (c : ChameneoActor) :
    ∑ j ∈ awayᶜ, (Function.update f i c j).meetings + (f i).meetings =
      ∑ j ∈ awayᶜ, (f j).meetings + c.meetings := by
  have member : i ∈ awayᶜ := Finset.mem_compl.mpr here
  rw [← Finset.sum_erase_add _ _ member,← Finset.sum_erase_add _ (fun j => (f j).meetings) member]
  have others : ∑ j ∈ awayᶜ.erase i, (Function.update f i c j).meetings = ∑ j ∈ awayᶜ.erase i, (f j).meetings := by
    apply Finset.sum_congr rfl
    intro j there
    rw [Function.update_of_ne (Finset.ne_of_mem_erase there)]
  rw [others,Function.update_self]
  ac_rfl

theorem UInt64.succ_le {a b : UInt64} (less : a < b) : a + 1 ≤ b := by
  rw [UInt64.le_iff_toNat_le,UInt64.toNat_add]
  have := UInt64.lt_iff_toNat_lt.mp less
  have := b.toNat_lt
  simp only [UInt64.reduceToNat]
  omega

-- A count on its way to the mall leaves room for it.
theorem Tally.room (tally : Tally numMeetings s) (present : .mall (.meetingCount count) ∈ s.net) :
    s.mall.numFaded < n := by
  have goodbyes := carried_erase farewells present
  have all : s.exited.card ≤ n := by simpa using Finset.card_le_univ s.exited
  have faded := tally.faded
  simp only [farewells] at goodbyes
  omega

theorem Tally.mall_kept (tally : Tally numMeetings s) (parts : Parts late)
    (move : Move late s (.deliver (.mall msg)) next) : Tally numMeetings next := by
  obtain ⟨meetings,faded,counted,dead,asked,bound,latch⟩ := id tally
  cases move with
  | fade count present more =>
    have room := tally.room present
    refine ⟨?_,(carried_taken present rfl).trans faded,counted,dead,asked,bound,.inl ⟨?_,.inl ?_⟩⟩
    · refine (carried_taken present ?_).trans meetings
      simp only [credit]
      ac_rfl
    · dsimp only
      omega
    · dsimp only
      omega
  | finish count present last up =>
    refine ⟨?_,(carried_taken present rfl).trans faded,counted,dead,asked,bound,.inr ⟨?_,?_,last⟩⟩
    · refine (carried_taken present ?_).trans meetings
      simp only [credit]
      ac_rfl
    · dsimp only
      omega
    · omega
  | pair colour i other present early waiting =>
    refine ⟨?_,(carried_exchanged _ present rfl).trans faded,counted,dead,asked,?_,latch⟩
    · have credits := carried_handled credit {.chameneo other (.meet colour i)} present
      simp only [credit,carried_singleton,zero_add] at credits
      dsimp only
      rw [credits,← add_assoc,meetings,show (2 : UInt64) = 1 + 1 from rfl]
      ac_rfl
    · rw [asked] at early
      exact UInt64.succ_le early
  | wait colour i present early waiting =>
    refine ⟨(carried_taken present ?_).trans meetings,(carried_taken present rfl).trans faded,counted,dead,asked,
      bound,latch⟩
    simp only [credit,add_zero]
  | late colour i present closed =>
    obtain ⟨sent,same⟩ := parts.mall s.mall i
    rw [same]
    refine ⟨(carried_exchanged _ present ?_).trans meetings,(carried_exchanged _ present ?_).trans faded,counted,dead,
      asked,bound,latch⟩
    · rw [parts.carries_nothing (fun _ => rfl)]
      rfl
    · rw [parts.carries_nothing (fun _ => rfl)]
      rfl

-- A chameneo that stays turns what the message stands for into its own count and
-- into what it sends.
theorem Tally.handled (tally : Tally numMeetings s) (alive : i ∉ s.exited) (present : x ∈ s.net) (c : ChameneoActor)
    (sent : Multiset (Envelope n)) (pays : c.meetings + carried credit sent = (s.chameneos i).meetings + credit x)
    (quiet : carried farewells sent = farewells x) :
    Tally numMeetings { s with chameneos := Function.update s.chameneos i c, net := s.net.erase x + sent } := by
  obtain ⟨meetings,faded,counted,dead,asked,bound,latch⟩ := tally
  refine ⟨(carried_exchanged sent present ?_).trans meetings,(carried_exchanged sent present ?_).trans faded,counted,
    dead,asked,bound,latch⟩
  · have own := meetings_update (f := s.chameneos) alive c
    apply add_right_cancel (b := (s.chameneos i).meetings)
    calc s.mall.sumMeetings + ∑ j ∈ s.exitedᶜ, (Function.update s.chameneos i c j).meetings + carried credit sent +
          (s.chameneos i).meetings
        = s.mall.sumMeetings + (∑ j ∈ s.exitedᶜ, (Function.update s.chameneos i c j).meetings +
            (s.chameneos i).meetings) + carried credit sent := by ac_rfl
      _ = s.mall.sumMeetings + ∑ j ∈ s.exitedᶜ, (s.chameneos j).meetings +
            (c.meetings + carried credit sent) := by rw [own]; ac_rfl
      _ = s.mall.sumMeetings + ∑ j ∈ s.exitedᶜ, (s.chameneos j).meetings + credit x +
            (s.chameneos i).meetings := by rw [pays]; ac_rfl
  · rw [quiet]

theorem Tally.leaves (tally : Tally numMeetings s) (alive : i ∉ s.exited) (present : .chameneo i .exit ∈ s.net)
    (colour : ChameneosColour) : Tally numMeetings { s with
      chameneos := Function.update s.chameneos i { s.chameneos i with colour := colour }
      exited := insert i s.exited
      net := s.net.erase (.chameneo i .exit) + {.mall (.meetingCount (s.chameneos i).meetings)}
      counted := i ::ₘ s.counted } := by
  obtain ⟨meetings,faded,counted,dead,asked,bound,latch⟩ := tally
  have others : ∑ j ∈ (insert i s.exited)ᶜ,
      (Function.update s.chameneos i { s.chameneos i with colour := colour } j).meetings + (s.chameneos i).meetings =
      ∑ j ∈ s.exitedᶜ, (s.chameneos j).meetings := by
    rw [Finset.compl_insert,← Finset.sum_erase_add _ _ (Finset.mem_compl.mpr alive)]
    apply congrArg (· + (s.chameneos i).meetings)
    apply Finset.sum_congr rfl
    intro j there
    rw [Function.update_of_ne (Finset.ne_of_mem_erase there)]
  refine ⟨(carried_exchanged _ present ?_).trans meetings,?_,?_,?_,asked,bound,latch⟩
  · rw [← others]
    simp only [carried_singleton,credit,add_zero,add_assoc]
  · have goodbyes := carried_handled farewells {.mall (.meetingCount (s.chameneos i).meetings)} present
    simp only [carried_singleton,farewells,zero_add] at goodbyes
    dsimp only
    rw [goodbyes,Finset.card_insert_of_notMem alive,← faded]
    rfl
  · dsimp only
    rw [Finset.insert_val_of_notMem alive,counted]
  · exact dead.trans (Finset.subset_insert i s.exited)

theorem Tally.chameneo_kept (tally : Tally numMeetings s) (alive : i ∉ s.exited)
    (move : Move late s (.deliver (.chameneo i msg)) next) : Tally numMeetings next := by
  cases move with
  | drop _ _ present gone => exact absurd (tally.dead gone) alive
  | met _ other colour present =>
    apply tally.handled alive present
    · simp only [Multiset.insert_eq_cons,carried_cons,carried_singleton,credit,add_zero,add_assoc]
      rfl
    · rfl
  | change _ colour present =>
    apply tally.handled alive present
    · simp only [carried_singleton,credit,add_zero]
    · rfl
  | exit _ present => exact tally.leaves alive present .faded

theorem Tally.kept (tally : Tally numMeetings s) (parts : Parts late) (move : Move late s event next)
    (alive : ∀ i msg, event = .deliver (.chameneo i msg) → i ∉ s.exited) : Tally numMeetings next := by
  cases event with
  | start i =>
    cases move
    obtain ⟨meetings,faded,counted,dead,asked,bound,latch⟩ := tally
    refine ⟨?_,?_,counted,dead,asked,bound,latch⟩
    · simpa [credit] using meetings
    · simpa [farewells] using faded
  | deliver x =>
    cases x with
    | mall msg => exact tally.mall_kept parts move
    | chameneo i msg => exact tally.chameneo_kept (alive i msg rfl) move
  | die i =>
    cases move with
    | die _ exited =>
      obtain ⟨meetings,faded,counted,dead,asked,bound,latch⟩ := tally
      exact ⟨meetings,faded,counted,Finset.insert_subset exited dead,asked,bound,latch⟩

section Actor

-- Each chameneo has not started, has left, waits in the mall or is in one message.
structure Placed (s : System n) : Prop where
  places : s.startedᶜ.val + s.exited.val + (s.mall.waitingChameneo.toList : Multiset (Fin n)) +
    carried whereabouts s.net = Finset.univ.val
  waits : s.mall.waitingChameneo.isSome → s.mall.meetingsCount < s.mall.numMeetings
  leaves : ∀ i, .chameneo i .exit ∈ s.net → ¬s.mall.meetingsCount < s.mall.numMeetings
  left : s.exited.Nonempty → ¬s.mall.meetingsCount < s.mall.numMeetings

theorem placed_start (n : ℕ) (numMeetings : UInt64) : Placed (System.start n numMeetings) where
  places := by simp [System.start,ChameneosMallActor.create]
  waits := by simp [System.start,ChameneosMallActor.create]
  leaves := by simp [System.start]
  left := by simp [System.start]

theorem Placed.only_there (placed : Placed s) (present : .chameneo i msg ∈ s.net) :
    i ∉ s.startedᶜ.val + s.exited.val + (s.mall.waitingChameneo.toList : Multiset (Fin n)) := by
  intro elsewhere
  have nodup : (Finset.univ : Finset (Fin n)).val.Nodup := Finset.univ.nodup
  rw [← placed.places] at nodup
  have apart := (Multiset.nodup_add.mp nodup).2.2
  have there : i ∈ carried whereabouts s.net := by
    refine mem_carried.mpr ⟨_,present,?_⟩
    cases msg <;> simp [whereabouts]
  exact Multiset.disjoint_left.mp apart elsewhere there

theorem Placed.alive (placed : Placed s) (present : .chameneo i msg ∈ s.net) : i ∉ s.exited := by
  intro exited
  apply placed.only_there present
  simp [exited]

theorem Placed.started (placed : Placed s) (present : .chameneo i msg ∈ s.net) : i ∈ s.started := by
  by_contra idle
  apply placed.only_there present
  simp [idle]

theorem exit_sent (later : .chameneo j .exit ∈ s.net.erase x + sent) (others : .chameneo j .exit ∉ sent) :
    .chameneo j .exit ∈ s.net :=
  Multiset.mem_of_mem_erase ((Multiset.mem_add.mp later).resolve_right others)

theorem Placed.kept (placed : Placed s) (dead : s.dead ⊆ s.exited) (move : Move ActorChameneos.late s event next) :
    Placed next := by
  obtain ⟨places,waits,leaves,left⟩ := id placed
  cases move with
  | start i fresh =>
    refine ⟨?_,waits,?_,left⟩
    · rw [← places,← Finset.insert_erase (Finset.mem_compl.mpr fresh),
        Finset.insert_val_of_notMem (Finset.notMem_erase i _)]
      simp only [carried_add,carried_singleton,whereabouts,Finset.compl_insert]
      rw [← Multiset.singleton_add]
      ac_rfl
    · intro j later
      exact leaves j ((Multiset.mem_add.mp later).resolve_right (by simp))
  | fade count present more =>
    exact ⟨(carried_taken present (add_zero _).symm).trans places,waits,
      fun j later => leaves j (Multiset.mem_of_mem_erase later),left⟩
  | finish count present last up =>
    exact ⟨(carried_taken present (add_zero _).symm).trans places,waits,
      fun j later => leaves j (Multiset.mem_of_mem_erase later),left⟩
  | pair colour i other present early waiting =>
    refine ⟨?_,by simp,?_,?_⟩
    · refine (carried_exchanged _ present ?_).trans places
      rw [waiting]
      simp [whereabouts,add_assoc]
    · intro j later
      exact absurd early (leaves j (exit_sent later (by simp)))
    · intro some_left
      exact absurd early (left some_left)
  | wait colour i present early waiting =>
    refine ⟨?_,fun _ => early,fun j later => leaves j (Multiset.mem_of_mem_erase later),left⟩
    refine (carried_taken present ?_).trans places
    rw [waiting]
    simp [whereabouts]
  | late colour i present closed =>
    exact ⟨(carried_exchanged _ present rfl).trans places,waits,fun _ _ => closed,left⟩
  | drop i msg present gone => exact absurd (dead gone) (placed.alive present)
  | met i other colour present =>
    refine ⟨(carried_exchanged _ present ?_).trans places,waits,fun j later => leaves j (exit_sent later (by simp)),left⟩
    simp only [Multiset.insert_eq_cons,carried_cons,carried_singleton,whereabouts,Multiset.singleton_add]
    exact congrArg _ (Multiset.pair_comm other i)
  | change i colour present =>
    exact ⟨(carried_exchanged _ present rfl).trans places,waits,fun j later => leaves j (exit_sent later (by simp)),left⟩
  | exit i present =>
    refine ⟨(carried_exchanged _ present ?_).trans places,waits,fun j later => leaves j (exit_sent later (by simp)),
      fun _ => leaves i present⟩
    simp only [carried_singleton,whereabouts,add_zero]
    rw [Finset.insert_val_of_notMem (placed.alive present),← Multiset.singleton_add]
    ac_rfl
  | die i exited => exact ⟨places,waits,leaves,left⟩

-- The invariant of the actor version.
theorem reached_placed (path : Reached (step ActorChameneos.late) (fun _ _ => True) (System.start n numMeetings) s) :
    Tally numMeetings s ∧ Placed s := by
  apply path.invariant (fun s => Tally numMeetings s ∧ Placed s)
  · exact ⟨tally_start n numMeetings,placed_start n numMeetings⟩
  · rintro s event next ⟨tally,placed⟩ - done
    have move := step_move done
    refine ⟨tally.kept parts_actor move ?_,placed.kept tally.dead move⟩
    rintro i msg rfl
    cases move with
    | drop _ _ present _ => exact placed.alive present
    | met _ _ _ present => exact placed.alive present
    | change _ _ present => exact placed.alive present
    | exit _ present => exact placed.alive present

theorem Tally.all_left (tally : Tally numMeetings s) (down : s.mall.latch = 0) :
    s.exited = Finset.univ ∧ carried farewells s.net = 0 ∧ 0 < n := by
  have all : s.exited.card ≤ n := by simpa using Finset.card_le_univ s.exited
  have faded := tally.faded
  have latch := tally.latch
  refine ⟨?_,by omega,by omega⟩
  apply (Finset.card_eq_iff_eq_univ _).mp
  rw [Fintype.card_fin]
  omega

theorem Tally.sum_eq (tally : Tally numMeetings s) (left : s.exited = Finset.univ)
    (nothing : carried credit s.net = 0) (closed : ¬s.mall.meetingsCount < s.mall.numMeetings) :
    s.mall.sumMeetings = 2 * numMeetings := by
  have count : s.mall.meetingsCount = numMeetings := by
    rw [tally.asked] at closed
    exact UInt64.le_antisymm tally.bound (UInt64.not_lt.mp closed)
  have meetings := tally.meetings
  rw [left,nothing,count] at meetings
  simp only [Finset.compl_univ,Finset.sum_empty,add_zero] at meetings
  rw [meetings,show (2 : UInt64) = 1 + 1 from rfl,UInt64.add_mul,UInt64.one_mul]

theorem Placed.empty (placed : Placed s) (left : s.exited = Finset.univ) (silent : carried farewells s.net = 0) :
    s.net = 0 := by
  have places := placed.places
  rw [left,add_comm s.startedᶜ.val,add_assoc,add_assoc] at places
  have rest : s.startedᶜ.val + ((s.mall.waitingChameneo.toList : Multiset (Fin n)) + carried whereabouts s.net) = 0 :=
    add_eq_left.mp places
  have nowhere : carried whereabouts s.net = 0 := (add_eq_zero.mp (add_eq_zero.mp rest).2).2
  apply Multiset.eq_zero_of_forall_notMem
  intro x present
  have stands := carries_none nowhere present
  have none_sent : farewells x ≤ carried farewells s.net := load_le_carried present
  rw [silent] at none_sent
  cases x with
  | mall msg => cases msg <;> simp [whereabouts,farewells] at stands none_sent
  | chameneo i msg => cases msg <;> simp [whereabouts] at stands

-- No handler panics: the latch is up until the last count.
theorem deliver_total (tally : Tally numMeetings s) (placed : Placed s) (present : x ∈ s.net) :
    (step ActorChameneos.late s (.deliver x)).isSome := by
  simp only [step,if_pos present]
  cases x with
  | mall msg =>
    cases msg with
    | meetingCount count =>
      have room := tally.room present
      have up : s.mall.latch ≠ 0 := by
        have latch := tally.latch
        omega
      simp only [System.toMall,ChameneosMallActor.receive,if_neg up]
      split <;> rfl
    | meet colour i =>
      simp only [System.toMall,ChameneosMallActor.receive]
      repeat' split
      all_goals rfl
  | chameneo i msg =>
    simp only [System.toChameneo,if_pos (placed.started present)]
    split <;> rfl

-- The latch falls when all have left. A chameneo that waits while nothing is in
-- flight would be the only one.
theorem chameneos_meet (numMeetings : UInt64)
    (path : Reached (step ActorChameneos.late) (fun _ _ => True) (System.start n numMeetings) s) :
    (s.mall.latch = 0 → s.mall.sumMeetings = 2 * numMeetings ∧ s.counted = Finset.univ.val ∧ s.net = 0) ∧
      (2 ≤ n → s.started = Finset.univ → s.net = 0 → s.mall.latch = 0) ∧
      ∀ x ∈ s.net, (step ActorChameneos.late s (.deliver x)).isSome := by
  obtain ⟨tally,placed⟩ := reached_placed path
  refine ⟨?_,?_,fun x present => deliver_total tally placed present⟩
  · intro down
    obtain ⟨left,silent,some_one⟩ := tally.all_left down
    have empty := placed.empty left silent
    have closed : ¬s.mall.meetingsCount < s.mall.numMeetings := by
      apply placed.left
      rw [left]
      exact ⟨⟨0,some_one⟩,Finset.mem_univ _⟩
    refine ⟨tally.sum_eq left (by rw [empty,carried_zero]) closed,?_,empty⟩
    rw [tally.counted,left]
  · intro two started empty
    have places := placed.places
    rw [started,empty] at places
    simp only [Finset.compl_univ,Finset.empty_val,zero_add,carried_zero,add_zero] at places
    have sizes := congrArg Multiset.card places
    simp only [Multiset.card_add,Multiset.coe_card,Finset.card_val,Finset.card_univ,Fintype.card_fin] at sizes
    have none_waits : s.mall.waitingChameneo = none := by
      by_contra waiting
      have early := placed.waits (Option.isSome_iff_ne_none.mpr waiting)
      have short : s.mall.waitingChameneo.toList.length ≤ 1 := by
        cases s.mall.waitingChameneo <;> simp
      have some_left : s.exited.Nonempty := by
        rw [← Finset.card_pos]
        omega
      exact placed.left some_left early
    rw [none_waits] at sizes
    have faded := tally.faded
    have latch := tally.latch
    rw [empty,carried_zero] at faded
    simp only [Option.toList_none,List.length_nil,add_zero] at sizes
    omega

-- Two chameneos that meet once, with every message in the order it was sent.
def once : List (Event 2) :=
  [.start 0,.start 1,
    .deliver (.mall (.meet .red 0)),.deliver (.mall (.meet .yellow 1)),
    .deliver (.chameneo 0 (.meet .yellow 1)),.deliver (.chameneo 1 (.change .blue)),
    .deliver (.mall (.meet .blue 0)),.deliver (.mall (.meet .blue 1)),
    .deliver (.chameneo 0 .exit),.deliver (.chameneo 1 .exit),
    .deliver (.mall (.meetingCount 1)),.deliver (.mall (.meetingCount 1))]

theorem once_counted_twice : ∃ s : System 2,
    Reached (step ActorChameneos.late) (fun _ _ => True) (System.start 2 1) s ∧ s.mall.latch = 0 ∧
      s.mall.sumMeetings = 2 ∧ s.counted = Finset.univ.val ∧ s.net = 0 := by
  obtain ⟨s,path,started⟩ : ∃ s : System 2,
      Reached (step ActorChameneos.late) (fun _ _ => True) (System.start 2 1) s ∧
        decide (s.started = Finset.univ ∧ s.net = 0) = true :=
    runs_check once (by decide)
  obtain ⟨all,empty⟩ := of_decide_eq_true started
  obtain ⟨counts,ends,-⟩ := chameneos_meet 1 path
  have down := ends le_rfl all empty
  exact ⟨s,path,down,counts down⟩

end Actor

section Mixed

def leavers : Envelope n → Multiset (Fin n)
  | .chameneo i .exit => {i}
  | _ => 0

-- Nobody is told to leave while a meeting of it is still to be counted.
def Undisturbed (s : System n) : Event n → Prop
  | .deliver (.chameneo i .exit) => ∀ x ∈ s.net, i ∉ meeters x
  | _ => True

instance (s : System n) : (event : Event n) → Decidable (Undisturbed s event)
  | .deliver (.chameneo i .exit) => inferInstanceAs (Decidable (∀ x ∈ s.net, i ∉ meeters x))
  | .deliver (.chameneo _ (.meet _ _)) => .isTrue trivial
  | .deliver (.chameneo _ (.change _)) => .isTrue trivial
  | .deliver (.mall _) => .isTrue trivial
  | .start _ => .isTrue trivial
  | .die _ => .isTrue trivial

-- The exit reaches everyone once, and those that left are in no meeting.
structure Parted (s : System n) : Prop where
  calm : ∀ x ∈ s.net, ∀ i ∈ meeters x, i ∉ s.exited
  exits : s.exited.val + carried leavers s.net = if s.mall.sentExit then Finset.univ.val else 0
  closed : s.mall.sentExit = true → ¬s.mall.meetingsCount < s.mall.numMeetings

theorem parted_start (n : ℕ) (numMeetings : UInt64) : Parted (System.start n numMeetings) where
  calm := by simp [System.start]
  exits := by simp [System.start,ChameneosMallActor.create]
  closed := by simp [System.start,ChameneosMallActor.create]

theorem Parted.nodup (parted : Parted s) : (s.exited.val + carried leavers s.net).Nodup := by
  rw [parted.exits]
  split
  · exact Finset.univ.nodup
  · exact Multiset.nodup_zero

theorem Parted.alive (parted : Parted s) (present : .chameneo i msg ∈ s.net) : i ∉ s.exited := by
  cases msg with
  | meet colour other => exact parted.calm _ present i (by simp [meeters])
  | change colour => exact parted.calm _ present i (by simp [meeters])
  | exit =>
    intro exited
    have apart := (Multiset.nodup_add.mp parted.nodup).2.2
    exact Multiset.disjoint_left.mp apart exited (mem_carried.mpr ⟨_,present,by simp [leavers]⟩)

-- Nobody has left while there are meetings to come.
theorem Parted.early (parted : Parted s) (early : s.mall.meetingsCount < s.mall.numMeetings) : s.exited = ∅ := by
  have exits := parted.exits
  rw [if_neg (fun sent => parted.closed sent early)] at exits
  exact Finset.val_eq_zero.mp (add_eq_zero.mp exits).1

theorem calm_kept {sent : Multiset (Envelope n)} (calm : ∀ x ∈ s.net, ∀ i ∈ meeters x, i ∉ s.exited)
    (fresh : ∀ y ∈ sent, ∀ i ∈ meeters y, i ∉ s.exited) :
    ∀ y ∈ s.net.erase x + sent, ∀ i ∈ meeters y, i ∉ s.exited := by
  intro y later
  rcases Multiset.mem_add.mp later with old | new
  · exact calm y (Multiset.mem_of_mem_erase old)
  · exact fresh y new

theorem broadcast_leavers : carried leavers (((List.finRange n).map fun i => Envelope.chameneo i .exit : List (Envelope n)) :
    Multiset (Envelope n)) = Finset.univ.val := by
  have each : ((List.finRange n : Multiset (Fin n)).map fun i => ({i} : Multiset (Fin n))).sum = Finset.univ.val :=
    Multiset.sum_map_singleton _
  simpa [carried,Function.comp_def,leavers] using each

-- The first late chameneo lets all leave, and the others are just dropped.
theorem Parted.late_exits (parted : Parted s) (present : .mall (.meet colour i) ∈ s.net) :
    s.exited.val + carried leavers (s.net.erase (.mall (.meet colour i)) +
        ((MixedChameneos.late s.mall i).2 : Multiset (Envelope n))) =
      if (MixedChameneos.late s.mall i).1.sentExit then Finset.univ.val else 0 := by
  have exits := parted.exits
  unfold MixedChameneos.late
  split
  · rename_i again
    rw [if_pos again] at exits
    exact (carried_exchanged _ present rfl).trans exits
  · rename_i first
    rw [if_neg first] at exits
    have sends := carried_handled leavers ((List.finRange n).map fun i => Envelope.chameneo i .exit) present
    rw [broadcast_leavers] at sends
    simp only [leavers,zero_add] at sends
    dsimp only
    rw [sends,← add_assoc,exits,zero_add,if_pos rfl]

theorem Parted.kept (parted : Parted s) (dead : s.dead ⊆ s.exited) (able : Undisturbed s event)
    (move : Move MixedChameneos.late s event next) : Parted next := by
  obtain ⟨calm,exits,closed⟩ := id parted
  cases move with
  | start i fresh =>
    refine ⟨?_,by simpa [leavers] using exits,closed⟩
    intro x later
    rcases Multiset.mem_add.mp later with old | new
    · exact calm x old
    · cases Multiset.mem_singleton.mp new
      simp [meeters]
  | fade count present more =>
    exact ⟨fun x later => calm x (Multiset.mem_of_mem_erase later),
      (carried_taken present (add_zero _).symm).trans exits,closed⟩
  | finish count present last up =>
    exact ⟨fun x later => calm x (Multiset.mem_of_mem_erase later),
      (carried_taken present (add_zero _).symm).trans exits,closed⟩
  | pair colour i other present early waiting =>
    refine ⟨?_,(carried_exchanged _ present rfl).trans exits,?_⟩
    · apply calm_kept calm
      intro y new j _
      rw [parted.early early]
      exact Finset.notMem_empty j
    · intro sent
      exact absurd early (closed sent)
  | wait colour i present early waiting =>
    exact ⟨fun x later => calm x (Multiset.mem_of_mem_erase later),
      (carried_taken present (add_zero _).symm).trans exits,closed⟩
  | late colour i present shut =>
    refine ⟨?_,?_,?_⟩
    · apply calm_kept calm
      intro y new j inside
      obtain ⟨k,rfl⟩ := parts_mixed.sends s.mall i y (Multiset.mem_coe.mp new)
      cases inside
    · exact parted.late_exits present
    · intro _
      obtain ⟨sent,same⟩ := parts_mixed.mall s.mall i
      rw [same]
      exact shut
  | drop i msg present gone => exact absurd (dead gone) (parted.alive present)
  | met i other colour present =>
    refine ⟨?_,(carried_exchanged _ present rfl).trans exits,closed⟩
    apply calm_kept calm
    intro y new j inside
    have member : j ∈ meeters (.chameneo i (.meet colour other)) := by
      rcases Multiset.mem_cons.mp new with rfl | last
      · simp only [meeters,Multiset.mem_singleton] at inside
        simp [meeters,inside]
      · cases Multiset.mem_singleton.mp last
        cases inside
    exact calm _ present j member
  | change i colour present =>
    refine ⟨?_,(carried_exchanged _ present rfl).trans exits,closed⟩
    apply calm_kept calm
    intro y new j inside
    cases Multiset.mem_singleton.mp new
    cases inside
  | exit i present =>
    refine ⟨?_,?_,closed⟩
    · intro y later j inside
      rcases Multiset.mem_add.mp later with old | new
      · have there := Multiset.mem_of_mem_erase old
        rw [Finset.mem_insert,not_or]
        refine ⟨?_,calm y there j inside⟩
        rintro rfl
        exact able y there inside
      · cases Multiset.mem_singleton.mp new
        cases inside
    · refine (carried_exchanged _ present ?_).trans exits
      simp only [carried_singleton,leavers,add_zero]
      rw [Finset.insert_val_of_notMem (parted.alive present),← Multiset.singleton_add,add_comm]
  | die i exited => exact ⟨calm,exits,closed⟩

theorem reached_parted (path : Reached (step MixedChameneos.late) Undisturbed (System.start n numMeetings) s) :
    Tally numMeetings s ∧ Parted s := by
  apply path.invariant (fun s => Tally numMeetings s ∧ Parted s)
  · exact ⟨tally_start n numMeetings,parted_start n numMeetings⟩
  · rintro s event next ⟨tally,parted⟩ able done
    have move := step_move done
    refine ⟨tally.kept parts_mixed move ?_,parted.kept tally.dead able move⟩
    rintro i msg rfl
    cases move with
    | drop _ _ present _ => exact parted.alive present
    | met _ _ _ present => exact parted.alive present
    | change _ _ present => exact parted.alive present
    | exit _ present => exact parted.alive present

theorem undisturbed_meetings_counted (numMeetings : UInt64)
    (path : Reached (step MixedChameneos.late) Undisturbed (System.start n numMeetings) s) :
    s.mall.latch = 0 → s.mall.sumMeetings = 2 * numMeetings := by
  intro down
  obtain ⟨tally,parted⟩ := reached_parted path
  obtain ⟨left,silent,some_one⟩ := tally.all_left down
  have sent : s.mall.sentExit = true := by
    by_contra unsent
    have exits := parted.exits
    rw [if_neg unsent,left] at exits
    have empty := Finset.val_eq_zero.mp (add_eq_zero.mp exits).1
    exact Finset.notMem_empty (⟨0,some_one⟩ : Fin n) (by rw [← empty]; exact Finset.mem_univ _)
  apply tally.sum_eq left ?_ (parted.closed sent)
  apply carried_eq_zero
  intro x present
  have none_sent : farewells x ≤ carried farewells s.net := load_le_carried present
  rw [silent] at none_sent
  have nobody : ∀ i, i ∉ meeters x := by
    intro i inside
    apply parted.calm x present i inside
    rw [left]
    exact Finset.mem_univ i
  cases x with
  | mall msg =>
    cases msg with
    | meetingCount count => simp [farewells] at none_sent
    | meet colour i => rfl
  | chameneo i msg =>
    cases msg with
    | meet colour other => exact absurd (by simp [meeters]) (nobody i)
    | change colour => exact absurd (by simp [meeters]) (nobody i)
    | exit => rfl

-- The late one lets both leave, and the other one does so before it counts the meeting.
def hurried : List (Event 2) :=
  [.start 0,.start 1,
    .deliver (.mall (.meet .red 0)),.deliver (.mall (.meet .yellow 1)),
    .deliver (.chameneo 0 (.meet .yellow 1)),.deliver (.mall (.meet .blue 0)),
    .deliver (.chameneo 1 .exit),.deliver (.chameneo 0 .exit),
    .deliver (.mall (.meetingCount 0)),.deliver (.mall (.meetingCount 1))]

theorem hurried_meeting_lost : ∃ s : System 2,
    Reached (step MixedChameneos.late) (fun _ _ => True) (System.start 2 1) s ∧ s.mall.latch = 0 ∧
      s.mall.sumMeetings ≠ 2 * 1 := by
  obtain ⟨s,path,lost⟩ : ∃ s : System 2,
      Reached (step MixedChameneos.late) (fun _ _ => True) (System.start 2 1) s ∧
        decide (s.mall.latch = 0 ∧ s.mall.sumMeetings ≠ 2 * 1) = true :=
    runs_check hurried (by decide)
  exact ⟨s,path,of_decide_eq_true lost⟩

def patient : List (Event 2) :=
  [.start 0,.start 1,
    .deliver (.mall (.meet .red 0)),.deliver (.mall (.meet .yellow 1)),
    .deliver (.chameneo 0 (.meet .yellow 1)),.deliver (.mall (.meet .blue 0)),
    .deliver (.chameneo 1 (.change .blue)),.deliver (.chameneo 1 .exit),.deliver (.chameneo 0 .exit),
    .deliver (.mall (.meet .blue 1)),.deliver (.mall (.meetingCount 1)),.deliver (.mall (.meetingCount 1))]

theorem patient_meeting_counted : ∃ s : System 2,
    Reached (step MixedChameneos.late) Undisturbed (System.start 2 1) s ∧ s.mall.latch = 0 ∧
      s.mall.sumMeetings = 2 * 1 := by
  obtain ⟨s,path,down⟩ : ∃ s : System 2,
      Reached (step MixedChameneos.late) Undisturbed (System.start 2 1) s ∧ decide (s.mall.latch = 0) = true :=
    runs_check patient (by decide)
  have released := of_decide_eq_true down
  exact ⟨s,path,released,undisturbed_meetings_counted 1 path released⟩

end Mixed

end KompicsBenches.Chameneos
