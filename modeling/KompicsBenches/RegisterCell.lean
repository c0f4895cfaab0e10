import KompicsBenches.Flight
import KompicsBenches.Quorum
import KompicsBenches.RegisterNode

namespace KompicsBenches.RegisterCell
open RegisterNode Flight Quorum

structure Packet (n : ℕ) where
  src : Fin n
  dst : Fin n
  msg : AtomicRegisterMessage
  deriving DecidableEq

-- The `pid` that the partitioning actor gives to the node at position `p`.
def rankOf (p : Fin n) : ℕ := p + 1

theorem rankOf_inj {p q : Fin n} : rankOf p = rankOf q ↔ p = q := by
  simp [rankOf,Fin.ext_iff]

def packets (p : Fin n) (msg : AtomicRegisterMessage) : Multiset (Packet n) :=
  Finset.univ.val.map fun q => ⟨p,q,msg⟩

theorem mem_packets {p : Fin n} {x : Packet n} : x ∈ packets p msg ↔ ∃ q, x = ⟨p,q,msg⟩ := by
  simp [packets,eq_comm]

-- How far the one operation of a node on this register has come.
inductive Phase where
  | idle
  | querying (kind : OpKind)
  | imposing (kind : OpKind) (w : Write)
  | done (kind : OpKind) (w : Option Write) (out : ℕ)
  deriving DecidableEq, Repr

namespace Phase

def kind? : Phase → Option OpKind
  | .idle => none
  | .querying kind | .imposing kind _ | .done kind _ _ => some kind

def write? : Phase → Option Write
  | .imposing _ w => some w
  | .done _ w _ => w
  | _ => none

def collected : Phase → Bool
  | .imposing _ _ | .done _ _ _ => true
  | _ => false

def isImposing : Phase → Bool
  | .imposing _ _ => true
  | _ => false

end Phase

inductive Event (n : ℕ) where
  | invoked (p : Fin n) (kind : OpKind)
  | answered (p : Fin n) (kind : OpKind) (out : ℕ)
  deriving DecidableEq, Repr

-- One key in one run: what every node holds for it, the packets about it and
-- the invocations and responses so far.
structure Cell (n : ℕ) where
  reg : Fin n → AtomicRegisterState
  list : Fin n → Readlist
  phase : Fin n → Phase
  flight : Multiset (Packet n)
  trace : List (Event n)

def Cell.initial (n : ℕ) : Cell n where
  reg := fun _ => .new
  list := fun _ => []
  phase := fun _ => .idle
  flight := 0
  trace := []

def beginOp (kind : OpKind) (rank : ℕ) (reg : AtomicRegisterState) : AtomicRegisterState :=
  match kind with
  | .read => beginRead reg
  | .write => beginWrite rank reg

def replyTo (rank : ℕ) (reg : AtomicRegisterState) (r : Read) : Value where
  runId := r.runId
  key := r.key
  rid := r.rid
  ts := reg.ts
  wr := reg.wr
  value := reg.value
  senderRank := rank

def outOf (kind : OpKind) (rank : ℕ) (reg : AtomicRegisterState) : ℕ :=
  match kind with
  | .read => reg.readval
  | .write => rank

-- What a Value reply meets: the register, its readlist, the reply, and whether
-- the operation has broadcast its Write and waits for acknowledgements.
abbrev Guard := ℕ → AtomicRegisterState → Readlist → Value → Bool → Prop

def unguarded : Guard := fun _ _ _ _ _ => True

section Step
variable (guard : Guard)

-- `drop` covers a lost message and one that the receiver ignores.
inductive Step : Cell n → Cell n → Prop where
  | invoke {s : Cell n} {p : Fin n} (kind : OpKind) (runId key : ℕ) (fresh : s.phase p = .idle) :
      Step s {s with
        reg := Function.update s.reg p (beginOp kind (rankOf p) (s.reg p))
        list := Function.update s.list p []
        phase := Function.update s.phase p (.querying kind)
        flight := s.flight +
          packets p (.read ⟨runId,key,(beginOp kind (rankOf p) (s.reg p)).rid⟩)
        trace := s.trace ++ [.invoked p kind]}
  | drop {s : Cell n} {x : Packet n} (present : x ∈ s.flight) : Step s {s with flight := s.flight.erase x}
  | read {s : Cell n} {p q : Fin n} {r : Read} (present : ⟨p,q,.read r⟩ ∈ s.flight) :
      Step s {s with flight := s.flight.erase ⟨p,q,.read r⟩ +
        {⟨q,p,.value (replyTo (rankOf q) (s.reg q) r)⟩}}
  | wait {s : Cell n} {p q : Fin n} {v : Value} (present : ⟨q,p,.value v⟩ ∈ s.flight)
      (checked : guard n (s.reg p) (s.list p) v (s.phase p).isImposing)
      (few : ¬n / 2 < (insertReply (s.list p) v.senderRank v.triple).length) :
      Step s {s with
        reg := Function.update s.reg p (noteReply (s.reg p) (s.list p) v)
        list := Function.update s.list p (insertReply (s.list p) v.senderRank v.triple)
        flight := s.flight.erase ⟨q,p,.value v⟩}
  | answer {s : Cell n} {p q : Fin n} {v : Value} (present : ⟨q,p,.value v⟩ ∈ s.flight)
      (checked : guard n (s.reg p) (s.list p) v (s.phase p).isImposing)
      (many : n / 2 < (insertReply (s.list p) v.senderRank v.triple).length)
      (querying : s.phase p = .querying .read)
      (unanimous : (noteReply (s.reg p) (s.list p) v).skipImpose = true) :
      Step s {s with
        reg := Function.update s.reg p {noteReply (s.reg p) (s.list p) v with
          value := (noteReply (s.reg p) (s.list p) v).readval}
        list := Function.update s.list p []
        phase := Function.update s.phase p
          (.done .read none (noteReply (s.reg p) (s.list p) v).readval)
        flight := s.flight.erase ⟨q,p,.value v⟩
        trace := s.trace ++ [.answered p .read (noteReply (s.reg p) (s.list p) v).readval]}
  | impose {s : Cell n} {p q : Fin n} {v : Value} {kind : OpKind} {best : Triple} {w : Write}
      (present : ⟨q,p,.value v⟩ ∈ s.flight)
      (checked : guard n (s.reg p) (s.list p) v (s.phase p).isImposing)
      (many : n / 2 < (insertReply (s.list p) v.senderRank v.triple).length)
      (querying : s.phase p = .querying kind)
      (split : kind = .read → (noteReply (s.reg p) (s.list p) v).skipImpose = false)
      (greatest : maxReply (insertReply (s.list p) v.senderRank v.triple) = some best)
      (chosen : w = imposedWrite (rankOf p) {noteReply (s.reg p) (s.list p) v with
        readval := best.2.2} v best) :
      Step s {s with
        reg := Function.update s.reg p {noteReply (s.reg p) (s.list p) v with readval := best.2.2}
        list := Function.update s.list p []
        phase := Function.update s.phase p (.imposing kind w)
        flight := s.flight.erase ⟨q,p,.value v⟩ + packets p (.write w)}
  | write {s : Cell n} {p q : Fin n} {w : Write} (present : ⟨p,q,.write w⟩ ∈ s.flight) :
      Step s {s with
        reg := Function.update s.reg q (store (s.reg q) w)
        flight := s.flight.erase ⟨p,q,.write w⟩ +
          {⟨q,p,.ack {runId := w.runId,key := w.key,rid := w.rid}⟩}}
  | ack {s : Cell n} {p q : Fin n} {a : Ack} (present : ⟨q,p,.ack a⟩ ∈ s.flight)
      (few : ¬n / 2 < (s.reg p).acks + 1) :
      Step s {s with
        reg := Function.update s.reg p {s.reg p with acks := (s.reg p).acks + 1}
        flight := s.flight.erase ⟨q,p,.ack a⟩}
  | complete {s : Cell n} {p q : Fin n} {a : Ack} {kind : OpKind} {w : Write}
      (present : ⟨q,p,.ack a⟩ ∈ s.flight) (many : n / 2 < (s.reg p).acks + 1)
      (imposing : s.phase p = .imposing kind w) :
      Step s {s with
        reg := Function.update s.reg p {s.reg p with acks := 0}
        phase := Function.update s.phase p (.done kind (some w) (outOf kind (rankOf p) (s.reg p)))
        flight := s.flight.erase ⟨q,p,.ack a⟩
        trace := s.trace ++ [.answered p kind (outOf kind (rankOf p) (s.reg p))]}

inductive Reached (n : ℕ) : Cell n → Prop where
  | initial : Reached n (.initial n)
  | step : Reached n s → Step guard s next → Reached n next

end Step

variable {n : ℕ} {guard : Guard} {s next : Cell n}

-- Everything a step can do to one node.
inductive Moves (guard : Guard) (s next : Cell n) (p : Fin n) : Prop where
  | same (reg : next.reg p = s.reg p) (list : next.list p = s.list p)
      (phase : next.phase p = s.phase p)
  | begin (kind : OpKind) (fresh : s.phase p = .idle)
      (reg : next.reg p = beginOp kind (rankOf p) (s.reg p)) (list : next.list p = [])
      (phase : next.phase p = .querying kind)
  | wait (q : Fin n) (v : Value) (present : ⟨q,p,.value v⟩ ∈ s.flight)
      (rest : next.flight = s.flight.erase ⟨q,p,.value v⟩)
      (checked : guard n (s.reg p) (s.list p) v (s.phase p).isImposing)
      (few : ¬n / 2 < (insertReply (s.list p) v.senderRank v.triple).length)
      (reg : next.reg p = noteReply (s.reg p) (s.list p) v)
      (list : next.list p = insertReply (s.list p) v.senderRank v.triple)
      (phase : next.phase p = s.phase p)
  | answer (q : Fin n) (v : Value) (present : ⟨q,p,.value v⟩ ∈ s.flight)
      (rest : next.flight = s.flight.erase ⟨q,p,.value v⟩)
      (checked : guard n (s.reg p) (s.list p) v (s.phase p).isImposing)
      (many : n / 2 < (insertReply (s.list p) v.senderRank v.triple).length)
      (querying : s.phase p = .querying .read)
      (unanimous : (noteReply (s.reg p) (s.list p) v).skipImpose = true)
      (reg : next.reg p = {noteReply (s.reg p) (s.list p) v with
        value := (noteReply (s.reg p) (s.list p) v).readval})
      (list : next.list p = [])
      (phase : next.phase p = .done .read none (noteReply (s.reg p) (s.list p) v).readval)
  | impose (q : Fin n) (v : Value) (kind : OpKind) (best : Triple) (w : Write)
      (present : ⟨q,p,.value v⟩ ∈ s.flight)
      (rest : next.flight = s.flight.erase ⟨q,p,.value v⟩ + packets p (.write w))
      (checked : guard n (s.reg p) (s.list p) v (s.phase p).isImposing)
      (many : n / 2 < (insertReply (s.list p) v.senderRank v.triple).length)
      (querying : s.phase p = .querying kind)
      (split : kind = .read → (noteReply (s.reg p) (s.list p) v).skipImpose = false)
      (greatest : maxReply (insertReply (s.list p) v.senderRank v.triple) = some best)
      (chosen : w = imposedWrite (rankOf p) {noteReply (s.reg p) (s.list p) v with
        readval := best.2.2} v best)
      (reg : next.reg p = {noteReply (s.reg p) (s.list p) v with readval := best.2.2})
      (list : next.list p = []) (phase : next.phase p = .imposing kind w)
  | store (p' : Fin n) (w : Write) (present : ⟨p',p,.write w⟩ ∈ s.flight)
      (reg : next.reg p = store (s.reg p) w) (list : next.list p = s.list p)
      (phase : next.phase p = s.phase p)
  | ack (q : Fin n) (a : Ack) (present : ⟨q,p,.ack a⟩ ∈ s.flight)
      (rest : next.flight = s.flight.erase ⟨q,p,.ack a⟩)
      (few : ¬n / 2 < (s.reg p).acks + 1)
      (reg : next.reg p = {s.reg p with acks := (s.reg p).acks + 1})
      (list : next.list p = s.list p) (phase : next.phase p = s.phase p)
  | complete (q : Fin n) (a : Ack) (kind : OpKind) (w : Write)
      (present : ⟨q,p,.ack a⟩ ∈ s.flight) (rest : next.flight = s.flight.erase ⟨q,p,.ack a⟩)
      (many : n / 2 < (s.reg p).acks + 1) (imposing : s.phase p = .imposing kind w)
      (reg : next.reg p = {s.reg p with acks := 0}) (list : next.list p = s.list p)
      (phase : next.phase p = .done kind (some w) (outOf kind (rankOf p) (s.reg p)))

theorem step_moves (step : Step guard s next) (p : Fin n) : Moves guard s next p := by
  cases step with
  | @invoke p' kind runId key fresh =>
    by_cases same : p = p'
    · subst same
      exact .begin kind fresh (by simp) (by simp) (by simp)
    · exact .same (by simp [same]) (by simp [same]) (by simp [same])
  | drop present => exact .same rfl rfl rfl
  | read present => exact .same rfl rfl rfl
  | @wait p' q v present checked few =>
    by_cases same : p = p'
    · subst same
      exact .wait q v present rfl checked few (by simp) (by simp) rfl
    · exact .same (by simp [same]) (by simp [same]) rfl
  | @answer p' q v present checked many querying unanimous =>
    by_cases same : p = p'
    · subst same
      exact .answer q v present rfl checked many querying unanimous (by simp) (by simp) (by simp)
    · exact .same (by simp [same]) (by simp [same]) (by simp [same])
  | @impose p' q v kind best w present checked many querying split greatest chosen =>
    by_cases same : p = p'
    · subst same
      exact .impose q v kind best w present rfl checked many querying split greatest chosen
        (by simp) (by simp) (by simp)
    · exact .same (by simp [same]) (by simp [same]) (by simp [same])
  | @write p' q w present =>
    by_cases same : p = q
    · subst same
      exact .store p' w present (by simp) rfl rfl
    · exact .same (by simp [same]) rfl rfl
  | @ack p' q a present few =>
    by_cases same : p = p'
    · subst same
      exact .ack q a present rfl few (by simp) rfl rfl
    · exact .same (by simp [same]) rfl rfl
  | @complete p' q a kind w present many imposing =>
    by_cases same : p = p'
    · subst same
      exact .complete q a kind w present rfl many imposing (by simp) rfl (by simp)
    · exact .same (by simp [same]) rfl (by simp [same])

-- The only ways in which the operation of a node moves on.
inductive Advance : Phase → Phase → Prop where
  | same : Advance phase phase
  | begin : Advance .idle (.querying kind)
  | answer : Advance (.querying .read) (.done .read none out)
  | impose : Advance (.querying kind) (.imposing kind w)
  | complete : Advance (.imposing kind w) (.done kind (some w) out)

theorem step_advance (step : Step guard s next) (p : Fin n) :
    Advance (s.phase p) (next.phase p) := by
  cases step_moves step p with
  | same reg list phase => rw [phase]; exact .same
  | begin kind fresh reg list phase => rw [phase,fresh]; exact .begin
  | wait q v present rest checked few reg list phase => rw [phase]; exact .same
  | answer q v present rest checked many querying unanimous reg list phase =>
    rw [phase,querying]; exact .answer
  | impose q v kind best w present rest checked many querying split greatest chosen reg list phase =>
    rw [phase,querying]; exact .impose
  | store p' w present reg list phase => rw [phase]; exact .same
  | ack q a present rest few reg list phase => rw [phase]; exact .same
  | complete q a kind w present rest many imposing reg list phase =>
    rw [phase,imposing]; exact .complete

-- How a read has ended after a step.
inductive ReadEnd (guard : Guard) (s : Cell n) (p : Fin n) : Option Write → ℕ → Prop where
  | before (done : s.phase p = .done .read w out) : ReadEnd guard s p w out
  | answer (q : Fin n) (v : Value) (present : ⟨q,p,.value v⟩ ∈ s.flight)
      (checked : guard n (s.reg p) (s.list p) v (s.phase p).isImposing)
      (many : n / 2 < (insertReply (s.list p) v.senderRank v.triple).length)
      (querying : s.phase p = .querying .read)
      (unanimous : (noteReply (s.reg p) (s.list p) v).skipImpose = true) :
      ReadEnd guard s p none (noteReply (s.reg p) (s.list p) v).readval
  | complete (w : Write) (imposing : s.phase p = .imposing .read w) :
      ReadEnd guard s p (some w) (s.reg p).readval

theorem step_readEnd (step : Step guard s next) (done : next.phase p = .done .read w out) :
    ReadEnd guard s p w out := by
  cases step_moves step p with
  | same reg list phase => exact .before (phase ▸ done)
  | begin kind fresh reg list phase => simp [phase] at done
  | wait q v present rest checked few reg list phase => exact .before (phase ▸ done)
  | answer q v present rest checked many querying unanimous reg list phase =>
    rw [phase] at done
    cases done
    exact .answer q v present checked many querying unanimous
  | impose q v kind best w' present rest checked many querying split greatest chosen reg list phase =>
    simp [phase] at done
  | store p' w' present reg list phase => exact .before (phase ▸ done)
  | ack q a present rest few reg list phase => exact .before (phase ▸ done)
  | complete q a kind w' present rest many imposing reg list phase =>
    rw [phase] at done
    cases done
    exact .complete w' imposing

theorem Advance.started (advance : Advance before after) (started : before ≠ .idle) :
    after ≠ .idle := by
  cases advance <;> simp_all

theorem Advance.kept (advance : Advance before after) (known : before.kind? = some kind) :
    after.kind? = some kind := by
  cases advance <;> simp_all [Phase.kind?]

theorem Advance.written (advance : Advance before after) (known : before.write? = some w) :
    after.write? = some w := by
  cases advance <;> simp_all [Phase.write?]

theorem Advance.collected (advance : Advance before after) (known : before.collected = true) :
    after.collected = true := by
  cases advance <;> simp_all [Phase.collected]

-- A query token (false, p, q) stands for the Read from `p` to `q` or its Value,
-- an imposing token (true, p, q) for the Write from `p` to `q` or its Ack.
def token : Packet n → Bool × Fin n × Fin n
  | ⟨src,dst,.read _⟩ => (false,src,dst)
  | ⟨src,dst,.value _⟩ => (false,dst,src)
  | ⟨src,dst,.write _⟩ => (true,src,dst)
  | ⟨src,dst,.ack _⟩ => (true,dst,src)

theorem outstanding_add (left right : Multiset (Packet n)) :
    outstanding token (left + right) = outstanding token left + outstanding token right :=
  Multiset.map_add _ _ _

theorem open_reads (p : Fin n) (r : Read) : outstanding token (packets p (.read r)) =
    Finset.univ.val.map fun q => (false,p,q) := by
  simp [outstanding,packets,Function.comp_def,token]

theorem open_writes (p : Fin n) (w : Write) : outstanding token (packets p (.write w)) =
    Finset.univ.val.map fun q => (true,p,q) := by
  simp [outstanding,packets,Function.comp_def,token]

theorem fresh_nodup {left : Multiset (Bool × Fin n × Fin n)} {p : Fin n} {flag : Bool}
    (nodup : left.Nodup) (fresh : ∀ q, (flag,p,q) ∉ left) :
    (left + Finset.univ.val.map fun q : Fin n => (flag,p,q)).Nodup := by
  refine Multiset.nodup_add.mpr ⟨nodup,?_,?_⟩
  · exact (Finset.univ.nodup).map fun q q' same => by simpa using same
  · refine Multiset.disjoint_left.mpr ?_
    intro t old new
    obtain ⟨q,_,rfl⟩ := Multiset.mem_map.mp new
    exact fresh q old

-- Each replica owes at most one reply to a query and one to an imposing Write.
structure Tokens (s : Cell n) : Prop where
  nodup : (outstanding token s.flight).Nodup
  asked : ∀ p q, (false,p,q) ∈ outstanding token s.flight → s.phase p ≠ .idle
  imposed : ∀ p q, (true,p,q) ∈ outstanding token s.flight → (s.phase p).write?.isSome = true

theorem initial_tokens : Tokens (Cell.initial n) := by
  constructor <;> simp [Cell.initial,outstanding]

-- A handled message takes its token away; nobody's operation moves back.
theorem tokens_erase (valid : Tokens s) (present : x ∈ s.flight)
    (advance : ∀ p, Advance (s.phase p) (next.phase p))
    (rest : next.flight = s.flight.erase x) : Tokens next := by
  have smaller : ∀ t, t ∈ outstanding token next.flight → t ∈ outstanding token s.flight := by
    intro t member
    rw [rest] at member
    exact ((mem_consumed valid.nodup present).mp member).2
  refine ⟨rest ▸ consumed_nodup valid.nodup present,?_,?_⟩
  · exact fun p q member => (advance p).started (valid.asked p q (smaller _ member))
  · intro p q member
    obtain ⟨w,known⟩ := Option.isSome_iff_exists.mp (valid.imposed p q (smaller _ member))
    simp [(advance p).written known]

theorem tokens_reply (valid : Tokens s) (phases : next.phase = s.phase)
    (same : outstanding token next.flight = outstanding token s.flight) : Tokens next := by
  refine ⟨same ▸ valid.nodup,?_,?_⟩
  · rw [same,phases]
    exact valid.asked
  · rw [same,phases]
    exact valid.imposed

theorem step_tokens (valid : Tokens s) (step : Step guard s next) : Tokens next := by
  have advance := step_advance step
  cases step with
  | @invoke p kind runId key fresh =>
    have unasked : ∀ q, (false,p,q) ∉ outstanding token s.flight :=
      fun q member => valid.asked p q member fresh
    refine ⟨?_,?_,?_⟩
    · simpa only [outstanding_add,open_reads] using fresh_nodup valid.nodup unasked
    · intro p' q member
      dsimp only at member ⊢
      rw [outstanding_add,open_reads,Multiset.mem_add] at member
      by_cases same : p' = p
      · subst same
        simp
      · rw [Function.update_of_ne same]
        exact valid.asked p' q (member.resolve_right (by simp [Ne.symm same]))
    · intro p' q member
      dsimp only at member ⊢
      rw [outstanding_add,open_reads,Multiset.mem_add] at member
      have written := valid.imposed p' q (member.resolve_right (by simp))
      have other : p' ≠ p := by
        rintro rfl
        simp [fresh,Phase.write?] at written
      rwa [Function.update_of_ne other]
  | drop present => exact tokens_erase valid present advance rfl
  | read present => exact tokens_reply valid rfl (replied present rfl)
  | wait present checked few => exact tokens_erase valid present advance rfl
  | answer present checked many querying unanimous => exact tokens_erase valid present advance rfl
  | @impose p q v kind best w present checked many querying split greatest chosen =>
    have unwritten : ∀ q, (true,p,q) ∉ outstanding token s.flight := by
      intro q member
      have written := valid.imposed p q member
      simp [querying,Phase.write?] at written
    have smaller : ∀ t, t ∈ outstanding token (s.flight.erase ⟨q,p,.value v⟩) →
        t ∈ outstanding token s.flight :=
      fun t member => ((mem_consumed valid.nodup present).mp member).2
    refine ⟨?_,?_,?_⟩
    · simpa only [outstanding_add,open_writes] using fresh_nodup
        (consumed_nodup valid.nodup present) fun q member => unwritten q (smaller _ member)
    · intro p' q' member
      dsimp only at member
      rw [outstanding_add,open_writes,Multiset.mem_add] at member
      exact (advance p').started (valid.asked p' q' (smaller _ (member.resolve_right (by simp))))
    · intro p' q' member
      dsimp only at member ⊢
      rw [outstanding_add,open_writes,Multiset.mem_add] at member
      by_cases same : p' = p
      · subst same
        simp [Phase.write?]
      · rw [Function.update_of_ne same]
        exact valid.imposed p' q' (smaller _ (member.resolve_right (by simp [Ne.symm same])))
  | write present => exact tokens_reply valid rfl (replied present rfl)
  | ack present few => exact tokens_erase valid present advance rfl
  | complete present many imposing => exact tokens_erase valid present advance rfl

theorem reached_tokens (path : Reached guard n s) : Tokens s := by
  induction path with
  | initial => exact initial_tokens
  | step prior step ih => exact step_tokens ih step

end KompicsBenches.RegisterCell
