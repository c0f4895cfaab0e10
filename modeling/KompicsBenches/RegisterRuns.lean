import KompicsBenches.RegisterSim

namespace KompicsBenches.RegisterRuns
open RegisterNode RegisterCell RegisterAcks RegisterOrder RegisterValues RegisterLinear
open RegisterSystem RegisterSteps RegisterSim
variable {n : ℕ} {cfg : Config n} {guard : Guard} {s next : System n}

instance : ∀ n reg list v b, Decidable (unguarded n reg list v b) := fun _ _ _ _ _ => isTrue trivial

instance : ∀ n reg list v b, Decidable (lateGuard n reg list v b) := fun _ reg list v b =>
  inferInstanceAs (Decidable (b = true → reg.reading = true → list = [] → v.value = reg.readval))

instance : ∀ n reg list v b, Decidable (tagGuard n reg list v b) := fun n reg list v _ =>
  inferInstanceAs (Decidable (fastQuorum n reg list v = true → firstValue reg list v = reg.value))

instance : ∀ n reg list v b, Decidable (linearGuard n reg list v b) := fun n reg list v b =>
  inferInstanceAs (Decidable (lateGuard n reg list v b ∧ (fastQuorum n reg list v = true →
    (∀ entry ∈ list, entry.2.2.1 = v.wr) ∧ (reg.tag ≤ v.tag ∨ firstValue reg list v = reg.value))))

-- Three nodes and one key: the first node writes, the others read.
def small (variant : Variant) : Config 3 where
  variant := variant
  numKeys := 1
  testing := true
  workload := fun _ p => if p = 0 then [(0,.write)] else [(0,.read)]
  once := by intro run p; split <;> simp
  known := by intro run p op; split <;> simp +contextual
  small := by decide

def begins : List (Action 3) := [.init 0 1,.init 1 1,.init 2 1,.run 0,.invoke 0,.run 1,.run 2]

-- The write of the first node up to its broadcast, on the replies of the first
-- two nodes.
def writes : List (Action 3) :=
  [.deliver ⟨0,0,.read ⟨1,0,1⟩⟩,.deliver ⟨0,1,.read ⟨1,0,1⟩⟩,
    .deliver ⟨0,0,.value ⟨1,0,1,0,0,0,1⟩⟩,.deliver ⟨1,0,.value ⟨1,0,1,0,0,0,2⟩⟩]

def stored (p : Fin 3) : List (Action 3) :=
  [.deliver ⟨0,p,.write ⟨1,0,1,1,1,1⟩⟩,.deliver ⟨p,0,.ack ⟨1,0,1⟩⟩]

-- A read of the second node that meets the replies of the first and the third.
def readsAfter : List (Action 3) :=
  [.invoke 1,.deliver ⟨1,2,.read ⟨1,0,1⟩⟩,.deliver ⟨1,0,.read ⟨1,0,1⟩⟩]

def linearRun : List (Action 3) :=
  begins ++ writes ++ stored 0 ++ stored 2 ++ readsAfter ++
    [.deliver ⟨2,1,.value ⟨1,0,1,1,1,1,3⟩⟩,.deliver ⟨0,1,.value ⟨1,0,1,1,1,1,1⟩⟩]

-- The third node answers a read from old replies after it has stored the write.
-- Its register then pairs the tag of the write with the value 0.
def staleRun : List (Action 3) :=
  begins ++ [.invoke 2,.deliver ⟨2,0,.read ⟨1,0,1⟩⟩,.deliver ⟨2,1,.read ⟨1,0,1⟩⟩] ++ writes ++
    stored 0 ++ stored 2 ++
    [.deliver ⟨0,2,.value ⟨1,0,1,0,0,0,1⟩⟩,.deliver ⟨1,2,.value ⟨1,0,1,0,0,0,2⟩⟩] ++ readsAfter ++
    [.deliver ⟨2,1,.value ⟨1,0,1,1,1,0,3⟩⟩,.deliver ⟨0,1,.value ⟨1,0,1,1,1,1,1⟩⟩]

theorem executed (cfg : Config n) (guard : Guard) [∀ n reg list v b, Decidable (guard n reg list v b)]
    (actions : List (Action n)) (view : System n → α) (seen : α)
    (done : (execute cfg guard (.initial cfg) actions).map view = some seen) :
    ∃ s, Reached cfg guard s ∧ view s = seen := by
  obtain ⟨s,ran,same⟩ := Option.map_eq_some_iff.mp done
  exact ⟨s,execute_reached .initial ran,same⟩

theorem register_linearizable (path : Reached cfg linearGuard s) (run key : ℕ) :
    Histories.Linearizable 0 (s.history run key) := by
  obtain ⟨c,cell,sim⟩ := reached_sim path run key
  have linear := reached_linearizable cell
  unfold RegisterLinear.history at linear
  rwa [sim.events] at linear

theorem linear_run_linearizable : ∃ s, Reached (small .actor) linearGuard s ∧
    s.history 1 0 = [.inv 0 (.write 1),.res 0 none,.inv 1 .read,.res 1 (some 1)] ∧
    Histories.Linearizable 0 (s.history 1 0) := by
  obtain ⟨s,path,same⟩ := executed (small .actor) linearGuard linearRun (fun s => s.history 1 0)
    [.inv 0 (.write 1),.res 0 none,.inv 1 .read,.res 1 (some 1)] (by decide +kernel)
  exact ⟨s,path,same,register_linearizable path 1 0⟩

-- The write of 1 responds before the last read starts, and the read returns 0.
def staleHistory : Histories.History (Fin 3) ℕ :=
  [.inv 0 (.write 1),.inv 2 .read,.res 0 none,.res 2 (some 0),.inv 1 .read,.res 1 (some 0)]

theorem stale_history : ¬Histories.Linearizable 0 staleHistory := by
  rintro ⟨order,valid⟩
  have one : ∀ j : Fin 3, j ≠ 0 → Histories.opOf staleHistory j = some .read := by decide
  have returned : 0 = 1 := by
    have ordered : [Histories.Event.res 0 none,.inv 1 .read].Sublist staleHistory := by decide
    refine valid.answers_write rfl ?_ ordered (by decide)
    intro j other found
    by_contra different
    rw [one j different] at found
    cases found
  cases returned

-- Reads at a tag whose value was replaced return the past.
theorem register_not_linearizable : ¬∀ (n : ℕ) (cfg : Config n) (s : System n),
    cfg.variant = .actor → Reached cfg unguarded s →
      ∀ run key, Histories.Linearizable 0 (s.history run key) := by
  intro claim
  obtain ⟨s,path,same⟩ := executed (small .actor) unguarded staleRun (fun s => s.history 1 0)
    staleHistory (by decide +kernel)
  exact stale_history (same ▸ claim 3 (small .actor) s rfl path 1 0)

-- Everything that carries a (ts, wr, value) for a key of a run.
inductive Holds (s : System n) (run key : ℕ) : Triple → Prop where
  | stored (here : InRun s run p) (state : (s.nodes p).registerState key = some reg) :
      Holds s run key (toLex (reg.ts,toLex (reg.wr,reg.value)))
  | value (present : ⟨q,p,.value v⟩ ∈ inflight s) (current : v.runId = run) (named : v.key = key) :
      Holds s run key v.triple
  | write (present : ⟨q,p,.write w⟩ ∈ inflight s) (current : w.runId = run) (named : w.key = key) :
      Holds s run key (toLex (w.ts,toLex (w.wr,w.value)))
  | listed (here : InRun s run p) (lists : (s.nodes p).registerReadlist key = some list)
      (member : entry ∈ list) : Holds s run key entry.2

theorem holds_rank (path : Reached cfg tagGuard s) (holds : Holds s run key t) : t.2.2 = t.2.1 := by
  obtain ⟨c,cell,sim⟩ := reached_sim path run key
  have faithful := reached_faithful cell
  have seen {x : Packet n} (present : x ∈ inflight s) (about : About run key x) : x ∈ c.flight := by
    rw [sim.flight]
    exact Multiset.mem_filter.mpr ⟨present,about⟩
  cases holds with
  | @stored p reg here state =>
    have own := faithful.stored p
    rwa [sim.state p reg here state] at own
  | @value q p v present current named =>
    exact faithful.sent q p v (seen present ⟨current,named⟩)
  | @write q p w present current named =>
    exact faithful.written q w ((reached_acks cell).content q p w (seen present ⟨current,named⟩))
  | @listed p list entry here lists member =>
    exact faithful.listed p entry (by rwa [sim.lists p list here lists])

theorem tag_determines_value (path : Reached cfg tagGuard s) (left : Holds s run key t)
    (right : Holds s run key t') (same : (t.1,t.2.1) = (t'.1,t'.2.1)) : t.2.2 = t'.2.2 := by
  rw [holds_rank path left,holds_rank path right]
  exact congrArg Prod.snd same

def registers (s : System n) (run key : ℕ) (p : Fin n) : Bool × ℕ × Option AtomicRegisterState :=
  (s.inits.contains (p,run),(s.nodes p).currentRunId,(s.nodes p).registerState key)

theorem registers_holds (seen : registers s run key p = (true,run,some reg)) :
    Holds s run key (toLex (reg.ts,toLex (reg.wr,reg.value))) := by
  simp only [registers,Prod.mk.injEq,List.contains_iff_mem] at seen
  exact .stored ⟨seen.1,seen.2.1⟩ seen.2.2

-- What the first and the third node hold of the write.
def wrote : AtomicRegisterState := ⟨1,1,1,0,0,1,1,false,0,true⟩
def holder (value : ℕ) : AtomicRegisterState := ⟨1,1,value,0,0,0,0,false,0,true⟩

theorem write_run_value : ∃ s, Reached (small .actor) tagGuard s ∧
    Holds s 1 0 (toLex (1,toLex (1,1))) ∧ ∀ t, Holds s 1 0 t → (t.1,t.2.1) = (1,1) → t.2.2 = 1 := by
  obtain ⟨s,path,same⟩ := executed (small .actor) tagGuard (begins ++ writes ++ stored 0 ++ stored 2)
    (registers · 1 0 2) (true,1,some (holder 1)) (by decide +kernel)
  have first := registers_holds same
  exact ⟨s,path,first,fun t holds tag => tag_determines_value path holds first tag⟩

-- The fast read of the third node leaves the tag of the write with the value 0.
theorem tag_with_two_values : ¬∀ (n : ℕ) (cfg : Config n) (s : System n),
    cfg.variant = .actor → Reached cfg unguarded s → ∀ run key t t', Holds s run key t →
      Holds s run key t' → (t.1,t.2.1) = (t'.1,t'.2.1) → t.2.2 = t'.2.2 := by
  intro claim
  obtain ⟨s,path,same⟩ := executed (small .actor) unguarded staleRun
    (fun s => (registers s 1 0 0,registers s 1 0 2))
    ((true,1,some wrote),(true,1,some ⟨1,1,0,0,0,0,1,true,0,true⟩)) (by decide +kernel)
  have one := registers_holds (congrArg Prod.fst same)
  have two := registers_holds (congrArg Prod.snd same)
  have equal := claim 3 (small .actor) s rfl path 1 0 _ _ one two rfl
  cases equal

def Broadcast (s : System n) (run key : ℕ) (p : Fin n) (w : Write) : Prop :=
  (p,run,.bcast (.write w)) ∈ s.trace ∧ w.key = key

instance : Decidable (Broadcast s run key p w) := inferInstanceAs (Decidable (_ ∧ _))

def Moves (cfg : Config n) (guard : Guard) (s next : System n) : Prop :=
  ∃ action, Allowed guard s action ∧ step cfg s action = some next

def Later (cfg : Config n) (guard : Guard) : System n → System n → Prop :=
  Relation.ReflTransGen (Moves cfg guard)

theorem later_sim (path : Reached cfg guard s) (cell : RegisterCell.Reached guard n c)
    (sim : Sim run key s c) (later : Later cfg guard s next) :
    ∃ c', Relation.ReflTransGen (Step guard) c c' ∧ RegisterCell.Reached guard n c' ∧
      Reached cfg guard next ∧ Sim run key next c' := by
  induction later with
  | refl => exact ⟨c,.refl,cell,path,sim⟩
  | tail _ moved ih =>
    obtain ⟨c',steps,cell',path',sim'⟩ := ih
    obtain ⟨action,allowed,moved⟩ := moved
    obtain ⟨c'',same | step,after⟩ := step_sim cell' sim' (reached_sane path') allowed moved
    · exact ⟨c'',same ▸ steps,same ▸ cell',path'.step allowed moved,after⟩
    · exact ⟨c'',steps.tail step,cell'.step step,path'.step allowed moved,after⟩

theorem steps_tag (steps : Relation.ReflTransGen (Step guard) c c') (p : Fin n) :
    (c.reg p).tag ≤ (c'.reg p).tag := by
  induction steps with
  | refl => exact le_rfl
  | tail _ step ih => exact ih.trans (RegisterFootprint.step_tag step p)

theorem stored_tag_mono (path : Reached cfg guard s) (later : Later cfg guard s next)
    (here : InRun s run p) (there : InRun next run p)
    (state : (s.nodes p).registerState key = some reg)
    (state' : (next.nodes p).registerState key = some reg') : reg.tag ≤ reg'.tag := by
  obtain ⟨c,cell,sim⟩ := reached_sim path run key
  obtain ⟨c',steps,_,_,sim'⟩ := later_sim path cell sim later
  rw [← sim.state p reg here state,← sim'.state p reg' there state']
  exact steps_tag steps p

theorem tags_follow_real_time (path : Reached cfg unguarded s) (run key : ℕ) :
    (∀ next p reg reg', Later cfg unguarded s next → InRun s run p → InRun next run p →
      (s.nodes p).registerState key = some reg → (next.nodes p).registerState key = some reg' →
      reg.tag ≤ reg'.tag) ∧
    (∀ p q w w', .invoked p .write ∈ s.events run key → .invoked q .write ∈ s.events run key →
      Broadcast s run key p w → Broadcast s run key q w' → p ≠ q → w.tag ≠ w'.tag) ∧
    ∀ a b kind out kind' w w',
      [.answered a kind out,.invoked b kind'].Sublist (s.events run key) →
      Broadcast s run key a w → Broadcast s run key b w' →
      w.tag ≤ w'.tag ∧ (kind' = .write → w.tag < w'.tag) := by
  refine ⟨fun next p reg reg' later here there state state' =>
    stored_tag_mono path later here there state state',?_,?_⟩
  · intro p q w w' writes writes' sent sent' other same
    obtain ⟨c,cell,sim⟩ := reached_sim path run key
    rw [← sim.events,(reached_traced cell).invoked] at writes writes'
    have ranks : w.wr = w'.wr := congrArg (fun t => (ofLex t).2) same
    rw [((reached_writers cell).broadcast p w writes ((sim.broadcast p w).mpr sent)).1,
      ((reached_writers cell).broadcast q w' writes' ((sim.broadcast q w').mpr sent')).1] at ranks
    exact other (rankOf_inj.mp ranks)
  · intro a b kind out kind' w w' ordered sent sent'
    obtain ⟨c,cell,sim⟩ := reached_sim path run key
    rw [← sim.events] at ordered
    obtain ⟨found,done⟩ := ((reached_traced cell).answered a kind out).mp (ordered.subset (by simp))
    have begun := ((reached_traced cell).invoked b kind').mp (ordered.subset (by simp))
    have written := (sim.broadcast a w).mpr sent
    rw [done] at written
    cases written
    have above := reached_above cell ⟨kind,out,kind',ordered⟩ done
    exact above.imposed kind' w' begun ((sim.broadcast b w').mpr sent')

-- A write that is done, then a read that imposes the same tag.
theorem imposed_run_tags : ∃ s, Reached (small .actor) unguarded s ∧
    [.answered 0 .write 1,.invoked 1 .read].Sublist (s.events 1 0) ∧
    Broadcast s 1 0 0 ⟨1,0,1,1,1,1⟩ ∧ Broadcast s 1 0 1 ⟨1,0,1,1,1,1⟩ ∧
    (⟨1,0,1,1,1,1⟩ : Write).tag ≤ (⟨1,0,1,1,1,1⟩ : Write).tag := by
  obtain ⟨s,path,same⟩ := executed (small .actor) unguarded
    (begins ++ writes ++ stored 0 ++ stored 2 ++ [.invoke 1,.deliver ⟨1,0,.read ⟨1,0,1⟩⟩,
      .deliver ⟨1,1,.read ⟨1,0,1⟩⟩,.deliver ⟨0,1,.value ⟨1,0,1,1,1,1,1⟩⟩,
      .deliver ⟨1,1,.value ⟨1,0,1,0,0,0,2⟩⟩])
    (fun s => (decide ([.answered 0 .write 1,.invoked 1 .read].Sublist (s.events 1 0)),
      decide (Broadcast s 1 0 0 ⟨1,0,1,1,1,1⟩),decide (Broadcast s 1 0 1 ⟨1,0,1,1,1,1⟩)))
    (true,true,true) (by decide +kernel)
  simp only [Prod.mk.injEq,decide_eq_true_eq] at same
  obtain ⟨ordered,sent,sent'⟩ := same
  exact ⟨s,path,ordered,sent,sent',
    ((tags_follow_real_time path 1 0).2.2 0 1 .write 1 .read _ _ ordered sent sent').1⟩

theorem imposing_read_returns (path : Reached cfg lateGuard s) (sent : Broadcast s run key p w)
    (answered : .answered p .read out ∈ s.events run key) : out = w.value := by
  obtain ⟨c,cell,sim⟩ := reached_sim path run key
  rw [← sim.events] at answered
  obtain ⟨found,done⟩ := ((reached_traced cell).answered p .read out).mp answered
  have written := (sim.broadcast p w).mpr sent
  rw [done] at written
  cases written
  exact (reached_imposed (fun _ _ _ _ _ checked => checked) cell).out p w out done

def forwards (variant : Variant) (p : Fin 3) (msg : AtomicRegisterMessage) : List (Action 3) :=
  match variant with
  | .actor => []
  | .comp => [.forward p msg]

-- The write has reached the first node only. The second node reads from the
-- first node and from itself, and imposes the write.
def imposingRun (variant : Variant) : List (Action 3) :=
  begins ++ forwards variant 0 (.read ⟨1,0,1⟩) ++ writes ++
    forwards variant 0 (.write ⟨1,0,1,1,1,1⟩) ++ [.deliver ⟨0,0,.write ⟨1,0,1,1,1,1⟩⟩,.invoke 1] ++
    forwards variant 1 (.read ⟨1,0,1⟩) ++ [.deliver ⟨1,0,.read ⟨1,0,1⟩⟩,
      .deliver ⟨1,1,.read ⟨1,0,1⟩⟩,.deliver ⟨1,2,.read ⟨1,0,1⟩⟩,
      .deliver ⟨0,1,.value ⟨1,0,1,1,1,1,1⟩⟩,.deliver ⟨1,1,.value ⟨1,0,1,0,0,0,2⟩⟩] ++
    forwards variant 1 (.write ⟨1,0,1,1,1,1⟩)

def acknowledged : List (Action 3) :=
  [.deliver ⟨1,0,.write ⟨1,0,1,1,1,1⟩⟩,.deliver ⟨1,1,.write ⟨1,0,1,1,1,1⟩⟩,
    .deliver ⟨0,1,.ack ⟨1,0,1⟩⟩,.deliver ⟨1,1,.ack ⟨1,0,1⟩⟩]

theorem imposed_run_returns : ∃ s out, Reached (small .comp) lateGuard s ∧
    .answered 1 .read out ∈ s.events 1 0 ∧ Broadcast s 1 0 1 ⟨1,0,1,1,1,1⟩ ∧ out = 1 := by
  obtain ⟨s,path,same⟩ := executed (small .comp) lateGuard (imposingRun .comp ++ acknowledged)
    (fun s => (decide (.answered 1 .read 1 ∈ s.events 1 0),
      decide (Broadcast s 1 0 1 ⟨1,0,1,1,1,1⟩))) (true,true) (by decide +kernel)
  simp only [Prod.mk.injEq,decide_eq_true_eq] at same
  exact ⟨s,1,path,same.1,same.2,imposing_read_returns path same.2 same.1⟩

def ReturnsImposed (variant : Variant) : Prop :=
  ∀ (n : ℕ) (cfg : Config n) (s : System n), cfg.variant = variant → Reached cfg unguarded s →
    ∀ run key p w out, Broadcast s run key p w → .answered p .read out ∈ s.events run key →
      out = w.value

-- The reply of the third node arrives between the broadcast and the acks.
theorem late_reply (variant : Variant) : ¬ReturnsImposed variant := by
  intro claim
  have late : ∃ s, Reached (small variant) unguarded s ∧
      (decide (.answered 1 .read 0 ∈ s.events 1 0),
        decide (Broadcast s 1 0 1 ⟨1,0,1,1,1,1⟩)) = (true,true) := by
    refine executed (small variant) unguarded
      (imposingRun variant ++ [.deliver ⟨2,1,.value ⟨1,0,1,0,0,0,3⟩⟩] ++ acknowledged)
      (fun s => (decide (.answered 1 .read 0 ∈ s.events 1 0),
        decide (Broadcast s 1 0 1 ⟨1,0,1,1,1,1⟩))) (true,true) ?_
    cases variant <;> decide +kernel
  obtain ⟨s,path,same⟩ := late
  simp only [Prod.mk.injEq,decide_eq_true_eq] at same
  have equal := claim 3 (small variant) s rfl path 1 0 1 _ 0 same.2 same.1
  cases equal

theorem imposing_read_differs : ¬ReturnsImposed .actor ∧ ¬ReturnsImposed .comp :=
  ⟨late_reply .actor,late_reply .comp⟩

end KompicsBenches.RegisterRuns
