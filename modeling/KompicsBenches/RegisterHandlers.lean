import KompicsBenches.RegisterSystem

namespace KompicsBenches.RegisterHandlers
open RegisterNode RegisterCell RegisterSystem

-- What a message of the current run does to the register of its key, and the
-- one effect that goes with it.
inductive Local (n rank : ℕ) (reg : AtomicRegisterState) (list : Readlist) :
    AtomicRegisterMessage → AtomicRegisterState → Readlist → Option Effect → Prop where
  | read (r : Read) :
      Local n rank reg list (.read r) reg list (some (.reply (.value (replyTo rank reg r))))
  | staleValue (v : Value) (other : v.rid ≠ reg.rid) : Local n rank reg list (.value v) reg list none
  | wait (v : Value) (current : v.rid = reg.rid)
      (few : ¬n / 2 < (insertReply list v.senderRank v.triple).length) :
      Local n rank reg list (.value v) (noteReply reg list v)
        (insertReply list v.senderRank v.triple) none
  | answer (v : Value) (current : v.rid = reg.rid)
      (many : n / 2 < (insertReply list v.senderRank v.triple).length)
      (reading : reg.reading = true) (unanimous : (noteReply reg list v).skipImpose = true) :
      Local n rank reg list (.value v)
        {noteReply reg list v with value := (noteReply reg list v).readval} []
        (some (.stamp ⟨v.key,.readResponse,some (noteReply reg list v).readval,rank⟩))
  | impose (v : Value) (current : v.rid = reg.rid)
      (many : n / 2 < (insertReply list v.senderRank v.triple).length)
      (split : reg.reading = true → (noteReply reg list v).skipImpose = false)
      (greatest : maxReply (insertReply list v.senderRank v.triple) = some best) :
      Local n rank reg list (.value v) {noteReply reg list v with readval := best.2.2} []
        (some (.bcast (.write
          (imposedWrite rank {noteReply reg list v with readval := best.2.2} v best))))
  | write (w : Write) : Local n rank reg list (.write w) (store reg w) list
      (some (.reply (.ack {runId := w.runId,key := w.key,rid := w.rid})))
  | staleAck (a : Ack) (other : a.rid ≠ reg.rid) : Local n rank reg list (.ack a) reg list none
  | ack (a : Ack) (current : a.rid = reg.rid) (few : ¬n / 2 < reg.acks + 1) :
      Local n rank reg list (.ack a) {reg with acks := reg.acks + 1} list none
  | completeRead (a : Ack) (current : a.rid = reg.rid) (many : n / 2 < reg.acks + 1)
      (reading : reg.reading = true) : Local n rank reg list (.ack a) {reg with acks := 0} list
        (some (.stamp ⟨a.key,.readResponse,some reg.readval,rank⟩))
  | completeWrite (a : Ack) (current : a.rid = reg.rid) (many : n / 2 < reg.acks + 1)
      (writing : reg.reading = false) : Local n rank reg list (.ack a) {reg with acks := 0} list
        (some (.stamp ⟨a.key,.writeResponse,some rank,rank⟩))

def isDone : Effect → Bool
  | .done | .testDone _ => true
  | _ => false

def answersRead : Option Effect → Bool
  | some (.stamp event) => event.operation = .readResponse
  | _ => false

def answersWrite : Option Effect → Bool
  | some (.stamp event) => event.operation = .writeResponse
  | _ => false

-- The whole result of a handler around the register it touches: the counters,
-- and the Done that follows the last response.
structure Settled (s : AtomicRegister) (key : ℕ) (reg : AtomicRegisterState) (list : Readlist)
    (effect : Option Effect) (after : AtomicRegister) (effects : List Effect) : Prop where
  node : ∃ timestamps, after = {s with
    readCount := if answersRead effect then AtomicRegister.pred64 s.readCount else s.readCount
    writeCount := if answersWrite effect then AtomicRegister.pred64 s.writeCount else s.writeCount
    registerState := Function.update s.registerState key (some reg)
    registerReadlist := Function.update s.registerReadlist key (some list)
    timestamps := timestamps}
  effects : ∃ tail, effects = effect.toList ++ tail ∧ (∀ e ∈ tail, isDone e = true) ∧
    tail.length = if (answersRead effect = true ∨ answersWrite effect = true) ∧
      after.readCount = 0 ∧ after.writeCount = 0 then 1 else 0

section Node
variable {s after : AtomicRegister} {effects : List Effect}

theorem record_eq (s : AtomicRegister) (event : KVTimestamp) :
    ∃ timestamps, s.record event = {s with timestamps := timestamps} := by
  unfold AtomicRegister.record
  split
  · exact ⟨_,rfl⟩
  · exact ⟨_,rfl⟩

theorem sendDone_eq (s : AtomicRegister) : ∃ timestamps e,
    s.sendDone = ({s with timestamps := timestamps},[e]) ∧ isDone e = true := by
  unfold AtomicRegister.sendDone
  split
  · exact ⟨_,_,rfl,rfl⟩
  · split
    · exact ⟨_,_,rfl,rfl⟩
    · exact ⟨_,_,rfl,rfl⟩

theorem finish_eq (s : AtomicRegister) (event : KVTimestamp) : ∃ timestamps tail,
    s.finish event = ({s with timestamps := timestamps},.stamp event :: tail) ∧
      (∀ e ∈ tail, isDone e = true) ∧
      tail.length = if s.readCount = 0 ∧ s.writeCount = 0 then 1 else 0 := by
  obtain ⟨stamps,recorded⟩ := record_eq s event
  unfold AtomicRegister.finish
  rw [recorded]
  dsimp only
  split
  · rename_i zero
    obtain ⟨stamps',e,sent,done⟩ := sendDone_eq {s with timestamps := stamps}
    rw [sent]
    exact ⟨stamps',[e],rfl,by simpa using done,by simp⟩
  · exact ⟨stamps,[],rfl,by simp,by simp⟩

theorem settled_quiet {key : ℕ} {reg : AtomicRegisterState} {list : Readlist}
    {effect : Option Effect} (silent : ∀ event, effect ≠ some (.stamp event)) :
    Settled s key reg list effect {s with
      registerState := Function.update s.registerState key (some reg)
      registerReadlist := Function.update s.registerReadlist key (some list)} effect.toList := by
  have reads : answersRead effect = false := by
    unfold answersRead
    split
    · rename_i event
      exact absurd rfl (silent event)
    · rfl
  have writes : answersWrite effect = false := by
    unfold answersWrite
    split
    · rename_i event
      exact absurd rfl (silent event)
    · rfl
  exact ⟨⟨s.timestamps,by simp [reads,writes]⟩,[],by simp,by simp,by simp [reads,writes]⟩

theorem settled_read (key value : ℕ) (reg : AtomicRegisterState) (list : Readlist)
    (done : (s.put key reg list).readResponse key value = (after,effects)) :
    Settled s key reg list (some (.stamp ⟨key,.readResponse,some value,s.rank⟩)) after effects := by
  unfold AtomicRegister.readResponse at done
  obtain ⟨stamps,tail,finished,quiet,size⟩ := finish_eq
    {s.put key reg list with readCount := AtomicRegister.pred64 s.readCount}
    ⟨key,.readResponse,some value,s.rank⟩
  have same := finished.symm.trans done
  cases same
  exact ⟨⟨stamps,rfl⟩,tail,rfl,quiet,
    size.trans (if_congr ⟨fun zero => ⟨.inl rfl,zero⟩,fun both => both.2⟩ rfl rfl)⟩

theorem settled_write (key : ℕ) (reg : AtomicRegisterState) (list : Readlist)
    (done : (s.put key reg list).writeResponse key = (after,effects)) :
    Settled s key reg list (some (.stamp ⟨key,.writeResponse,some s.rank,s.rank⟩)) after effects := by
  unfold AtomicRegister.writeResponse at done
  obtain ⟨stamps,tail,finished,quiet,size⟩ := finish_eq
    {s.put key reg list with writeCount := AtomicRegister.pred64 s.writeCount}
    ⟨key,.writeResponse,some s.rank,s.rank⟩
  have same := finished.symm.trans done
  cases same
  exact ⟨⟨stamps,rfl⟩,tail,rfl,quiet,
    size.trans (if_congr ⟨fun zero => ⟨.inr rfl,zero⟩,fun both => both.2⟩ rfl rfl)⟩

-- One specification for the four handlers, on a message of the current run.
abbrev Handles (s : AtomicRegister) (msg : AtomicRegisterMessage) (reg : AtomicRegisterState)
    (list : Readlist) (after : AtomicRegister) (effects : List Effect) : Prop :=
  ∃ reg' list' effect, Local s.n s.rank reg list msg reg' list' effect ∧
    Settled s msg.key reg' list' effect after effects

section Current
variable {reg : AtomicRegisterState} {list : Readlist}

theorem same_read (state : s.registerState key = some reg) (lists : s.registerReadlist key = some list) :
    s = {s with
      registerState := Function.update s.registerState key (some reg)
      registerReadlist := Function.update s.registerReadlist key (some list)} := by
  rw [← state,← lists,Function.update_eq_self,Function.update_eq_self]

theorem same_list (lists : s.registerReadlist key = some list) (reg : AtomicRegisterState) :
    {s with registerState := Function.update s.registerState key (some reg)} =
      s.put key reg list := by
  unfold AtomicRegister.put
  rw [← lists,Function.update_eq_self]

theorem settled_same (state : s.registerState key = some reg)
    (lists : s.registerReadlist key = some list) {effect : Option Effect}
    (silent : ∀ event, effect ≠ some (.stamp event)) :
    Settled s key reg list effect s effect.toList := by
  have quiet : Settled s key reg list effect {s with
      registerState := Function.update s.registerState key (some reg)
      registerReadlist := Function.update s.registerReadlist key (some list)} effect.toList :=
    settled_quiet silent
  rwa [← same_read state lists] at quiet

theorem receiveRead_handles (current : r.runId = s.currentRunId)
    (state : s.registerState r.key = some reg) (lists : s.registerReadlist r.key = some list)
    (done : s.receiveRead r = some (after,effects)) :
    Handles s (.read r) reg list after effects := by
  unfold AtomicRegister.receiveRead at done
  rw [if_pos current,state] at done
  cases done
  refine ⟨reg,list,some (.reply (.value (replyTo s.rank reg r))),.read r,?_⟩
  have sent : replyTo s.rank reg r = {
      runId := s.currentRunId,key := r.key,rid := r.rid,
      ts := reg.ts,wr := reg.wr,value := reg.value,senderRank := s.rank} := by
    rw [← current]
    rfl
  rw [sent]
  exact settled_same state lists (by simp)

theorem collect_cases (n rank : ℕ) (reg : AtomicRegisterState) (list : Readlist) (v : Value)
    (done : collect n rank reg list v = some (reg',list',outcome)) :
    (¬n / 2 < (insertReply list v.senderRank v.triple).length ∧ reg' = noteReply reg list v ∧
      list' = insertReply list v.senderRank v.triple ∧ outcome = .waiting) ∨
    (n / 2 < (insertReply list v.senderRank v.triple).length ∧ reg.reading = true ∧
      (noteReply reg list v).skipImpose = true ∧
      reg' = {noteReply reg list v with value := (noteReply reg list v).readval} ∧
      list' = [] ∧ outcome = .answer (noteReply reg list v).readval) ∨
    ∃ best, n / 2 < (insertReply list v.senderRank v.triple).length ∧
      (reg.reading = true → (noteReply reg list v).skipImpose = false) ∧
      maxReply (insertReply list v.senderRank v.triple) = some best ∧
      reg' = {noteReply reg list v with readval := best.2.2} ∧ list' = [] ∧
      outcome = .impose (imposedWrite rank {noteReply reg list v with readval := best.2.2} v best) := by
  unfold collect at done
  dsimp only at done
  split at done
  · rename_i many
    split at done
    · rename_i fast
      rw [Bool.and_eq_true,RegisterFootprint.noteReply_reading] at fast
      cases done
      exact .inr (.inl ⟨many,fast.1,fast.2,rfl,rfl,rfl⟩)
    · rename_i slow
      rw [Bool.and_eq_true,RegisterFootprint.noteReply_reading,not_and,Bool.not_eq_true] at slow
      obtain ⟨best,greatest,rest⟩ := Option.bind_eq_some_iff.mp done
      cases rest
      exact .inr (.inr ⟨best,many,slow,greatest,rfl,rfl,rfl⟩)
  · rename_i few
    cases done
    exact .inl ⟨few,rfl,rfl,rfl⟩

theorem receiveValue_handles (current : v.runId = s.currentRunId)
    (state : s.registerState v.key = some reg) (lists : s.registerReadlist v.key = some list)
    (done : s.receiveValue v = some (after,effects)) :
    Handles s (.value v) reg list after effects := by
  unfold AtomicRegister.receiveValue at done
  rw [if_pos current,state,Option.bind_eq_bind,Option.bind_some] at done
  split at done
  · rename_i same
    rw [lists,Option.bind_eq_bind,Option.bind_some] at done
    obtain ⟨⟨reg',list',outcome⟩,collected,rest⟩ := Option.bind_eq_some_iff.mp done
    dsimp only at rest
    rcases collect_cases s.n s.rank reg list v collected with ⟨few,rfl,rfl,rfl⟩ |
      ⟨many,reading,unanimous,rfl,rfl,rfl⟩ | ⟨best,many,split,greatest,rfl,rfl,rfl⟩
    · cases rest
      exact ⟨_,_,none,.wait v same few,settled_quiet (by simp)⟩
    · exact ⟨_,_,_,.answer v same many reading unanimous,
        settled_read v.key _ _ _ (Option.some.inj rest)⟩
    · cases rest
      exact ⟨_,_,_,.impose v same many split greatest,settled_quiet (by simp)⟩
  · rename_i other
    cases done
    exact ⟨reg,list,none,.staleValue v other,settled_same state lists (by simp)⟩

theorem receiveWrite_handles (current : w.runId = s.currentRunId)
    (state : s.registerState w.key = some reg) (lists : s.registerReadlist w.key = some list)
    (done : s.receiveWrite w = some (after,effects)) :
    Handles s (.write w) reg list after effects := by
  unfold AtomicRegister.receiveWrite at done
  dsimp only at done
  rw [if_pos current,state,Option.bind_eq_bind,Option.bind_some] at done
  cases done
  refine ⟨_,list,_,.write w,?_⟩
  rw [same_list lists]
  exact settled_quiet (by simp)

theorem receiveAck_handles (current : a.runId = s.currentRunId)
    (state : s.registerState a.key = some reg) (lists : s.registerReadlist a.key = some list)
    (done : s.receiveAck a = some (after,effects)) :
    Handles s (.ack a) reg list after effects := by
  unfold AtomicRegister.receiveAck at done
  rw [if_pos current,state,Option.bind_eq_bind,Option.bind_some] at done
  split at done
  · rename_i same
    unfold countAck at done
    dsimp only at done
    by_cases many : s.n / 2 < reg.acks + 1
    · rw [if_pos many] at done
      dsimp only at done
      rw [if_pos rfl,same_list lists] at done
      split at done
      · rename_i reading
        exact ⟨_,_,_,.completeRead a same many reading,
          settled_read a.key _ _ _ (Option.some.inj done)⟩
      · rename_i writing
        exact ⟨_,_,_,.completeWrite a same many (by simpa using writing),
          settled_write a.key _ _ (Option.some.inj done)⟩
    · rw [if_neg many] at done
      dsimp only at done
      rw [if_neg Bool.false_ne_true,same_list lists] at done
      cases done
      exact ⟨_,_,none,.ack a same many,settled_quiet (by simp)⟩
  · rename_i other
    cases done
    exact ⟨reg,list,none,.staleAck a other,settled_same state lists (by simp)⟩

theorem receive_handles (current : msg.runId = s.currentRunId)
    (state : s.registerState msg.key = some reg) (lists : s.registerReadlist msg.key = some list)
    (done : s.receiveNetwork msg = some (after,effects)) : Handles s msg reg list after effects := by
  cases msg with
  | read r => exact receiveRead_handles current state lists done
  | value v => exact receiveValue_handles current state lists done
  | write w => exact receiveWrite_handles current state lists done
  | ack a => exact receiveAck_handles current state lists done

end Current

-- A message of another run changes nothing. Only a Write is answered.
theorem receive_other (other : msg.runId ≠ s.currentRunId)
    (done : s.receiveNetwork msg = some (after,effects)) : after = s ∧
      (effects = [] ∧ (∀ w, msg ≠ .write w) ∨ ∃ w, msg = .write w ∧
        effects = [.reply (.ack {runId := w.runId,key := w.key,rid := w.rid})]) := by
  cases msg with
  | read r =>
    change r.runId ≠ s.currentRunId at other
    unfold AtomicRegister.receiveNetwork AtomicRegister.receiveRead at done
    dsimp only at done
    rw [if_neg other] at done
    cases done
    exact ⟨rfl,.inl ⟨rfl,by simp⟩⟩
  | value v =>
    change v.runId ≠ s.currentRunId at other
    unfold AtomicRegister.receiveNetwork AtomicRegister.receiveValue at done
    dsimp only at done
    rw [if_neg other] at done
    cases done
    exact ⟨rfl,.inl ⟨rfl,by simp⟩⟩
  | write w =>
    change w.runId ≠ s.currentRunId at other
    unfold AtomicRegister.receiveNetwork AtomicRegister.receiveWrite at done
    dsimp only at done
    rw [if_neg other] at done
    cases done
    exact ⟨rfl,.inr ⟨w,rfl,rfl⟩⟩
  | ack a =>
    change a.runId ≠ s.currentRunId at other
    unfold AtomicRegister.receiveNetwork AtomicRegister.receiveAck at done
    dsimp only at done
    rw [if_neg other] at done
    cases done
    exact ⟨rfl,.inl ⟨rfl,by simp⟩⟩

-- The run and key an effect belongs to.
def Concerns (run key : ℕ) : Effect → Prop
  | .bcast msg | .reply msg => msg.runId = run ∧ msg.key = key
  | .stamp event => event.key = key
  | _ => True

theorem imposed_concerns (rank : ℕ) (reg : AtomicRegisterState) (v : Value) (best : Triple) :
    (imposedWrite rank reg v best).runId = v.runId ∧ (imposedWrite rank reg v best).key = v.key := by
  unfold imposedWrite
  dsimp only
  split <;> exact ⟨rfl,rfl⟩

theorem Local.concerns {reg reg' : AtomicRegisterState} {list list' : Readlist}
    (handled : Local n rank reg list msg reg' list' effect) :
    ∀ e ∈ effect, Concerns msg.runId msg.key e := by
  intro e member
  cases handled <;> cases member
  case impose => exact imposed_concerns _ _ _ _
  all_goals first | exact ⟨rfl,rfl⟩ | rfl

theorem Settled.concerns {reg : AtomicRegisterState} {list : Readlist} {effect : Option Effect}
    (settled : Settled s key reg list effect after effects)
    (concerns : ∀ e ∈ effect, Concerns run key e) : ∀ e ∈ effects, Concerns run key e := by
  obtain ⟨tail,rfl,quiet,_⟩ := settled.effects
  intro e member
  rcases List.mem_append.mp member with first | last
  · exact concerns e (Option.mem_toList.mp first)
  · have done := quiet e last
    cases e <;> first | exact trivial | cases done

def invocation : OpKind → KVOperation
  | .read => .readInvokation
  | .write => .writeInvokation

-- An invocation touches the register of its key and broadcasts the Read.
theorem invoke_eq (state : s.registerState op.1 = some reg) (lists : s.registerReadlist op.1 = some list)
    (done : s.invoke op = some (after,effects)) : ∃ value timestamps,
      after = {s with
        registerState := Function.update s.registerState op.1 (some (beginOp op.2 s.rank reg))
        registerReadlist := Function.update s.registerReadlist op.1 (some [])
        timestamps := timestamps} ∧
      effects = [.stamp ⟨op.1,invocation op.2,value,s.rank⟩,
        .bcast (.read ⟨s.currentRunId,op.1,(beginOp op.2 s.rank reg).rid⟩)] := by
  obtain ⟨key,kind⟩ := op
  cases kind with
  | read =>
    unfold AtomicRegister.invoke AtomicRegister.invokeRead at done
    dsimp only at done state lists
    rw [state,lists] at done
    obtain ⟨stamps,recorded⟩ := record_eq (s.put key (beginRead reg) [])
      ⟨key,.readInvokation,none,s.rank⟩
    simp only [Option.bind_eq_bind,Option.bind_some,recorded] at done
    cases done
    exact ⟨none,stamps,rfl,rfl⟩
  | write =>
    unfold AtomicRegister.invoke AtomicRegister.invokeWrite at done
    dsimp only at done state lists
    rw [state,lists] at done
    obtain ⟨stamps,recorded⟩ := record_eq (s.put key (beginWrite s.rank reg) [])
      ⟨key,.writeInvokation,some s.rank,s.rank⟩
    simp only [Option.bind_eq_bind,Option.bind_some,recorded] at done
    cases done
    exact ⟨some s.rank,stamps,rfl,rfl⟩

end Node

end KompicsBenches.RegisterHandlers
