import KompicsBenches.RegisterOrder

namespace KompicsBenches.RegisterValues
open RegisterNode RegisterCell RegisterFootprint RegisterReplies RegisterAcks RegisterOrder
open Flight Quorum
variable {n : ℕ} {guard : Guard} {s next : Cell n}

-- The value of the first reply of a reading operation, seen from the next one.
def firstValue (reg : AtomicRegisterState) (list : Readlist) (v : Value) : ℕ :=
  if list.isEmpty then v.value else reg.readval

-- The reply completes a quorum on which the read answers without imposing.
def fastQuorum (n : ℕ) (reg : AtomicRegisterState) (list : Readlist) (v : Value) : Bool :=
  decide (n / 2 < (insertReply list v.senderRank v.triple).length) && reg.reading &&
    (noteReply reg list v).skipImpose

-- A late reply does not replace the value that an imposing read will return.
def lateGuard : Guard := fun _ reg list v imposing =>
  imposing = true → reg.reading = true → list = [] → v.value = reg.readval

-- The fast path leaves the stored value as it is.
def tagGuard : Guard := fun n reg list v _ =>
  fastQuorum n reg list v = true → firstValue reg list v = reg.value

-- The fast path is taken on replies of one and the same (ts, wr), at a node
-- whose own tag is not later, or whose stored value it does not change.
def fastGuard : Guard := fun n reg list v _ =>
  fastQuorum n reg list v = true →
    (∀ entry ∈ list, entry.2.2.1 = v.wr) ∧
      (reg.tag ≤ v.tag ∨ firstValue reg list v = reg.value)

def linearGuard : Guard := fun n reg list v imposing =>
  lateGuard n reg list v imposing ∧ fastGuard n reg list v imposing

theorem noteReply_readval (reading : reg.reading = true) (list : Readlist) (v : Value) :
    (noteReply reg list v).readval = firstValue reg list v := by
  unfold noteReply firstValue
  rw [if_pos reading]
  split
  · rfl
  · split <;> rfl

-- What replies say is never ahead of the replica that sent them.
structure Bounded (s : Cell n) : Prop where
  sent : ∀ q p v, ⟨q,p,.value v⟩ ∈ s.flight → v.tag ≤ (s.reg q).tag
  listed : ∀ p q, ∀ entry ∈ s.list p, entry.1 = rankOf q → tripleTag entry.2 ≤ (s.reg q).tag

theorem initial_bounded : Bounded (Cell.initial n) := by
  constructor <;> simp [Cell.initial]

theorem step_bounded (replies : Replies s) (valid : Bounded s) (step : Step guard s next) :
    Bounded next where
  sent q p v present := by
    refine le_trans ?_ (step_tag step q)
    cases packet_origin step present with
    | old before => exact valid.sent q p v before
    | value asked => exact le_rfl
  listed p q entry member named := by
    refine le_trans ?_ (step_tag step q)
    cases entry_origin step member with
    | old before => exact valid.listed p q entry before named
    | @new q' v present rest =>
      have same : q' = q := rankOf_inj.mp ((replies.sender q' p v present).symm.trans named)
      exact same ▸ valid.sent q' p v present

theorem reached_bounded (path : Reached guard n s) : Bounded s := by
  induction path with
  | initial => exact initial_bounded
  | step prior step ih => exact step_bounded (reached_replies prior) ih step

-- A quorum that agrees on a tag makes the tag safe.
theorem agreed_covered (replies : Replies s) (valid : Bounded s)
    (present : ⟨q,p,.value v⟩ ∈ s.flight)
    (many : n / 2 < (insertReply (s.list p) v.senderRank v.triple).length)
    (agreed : ∀ entry ∈ s.list p, tripleTag entry.2 = v.tag) : Covered s v.tag := by
  refine ⟨_,(quorum_iff (inserted_distinct replies present)
    (inserted_ranks replies present)).mp many,?_⟩
  intro q' heard
  obtain ⟨entry,member,named⟩ := List.mem_map.mp (mem_heardFrom.mp heard)
  rw [inserted replies present] at member
  rcases List.mem_cons.mp member with rfl | old
  · have same : q = q' := rankOf_inj.mp named
    exact same ▸ valid.sent q p v present
  · rw [← agreed entry old]
    exact valid.listed p q' entry old named

-- Reading bookkeeping: the first reply is still in the readlist, and as long as
-- `skip_impose` stands every reply has its timestamp.
structure FirstReply (s : Cell n) : Prop where
  first : ∀ p, s.phase p = .querying .read → s.list p ≠ [] →
    ∃ entry ∈ s.list p, entry.2.1 = (s.reg p).firstReceivedTs ∧
      entry.2.2.2 = (s.reg p).readval
  skip : ∀ p, s.phase p = .querying .read → (s.reg p).skipImpose = true →
    ∀ entry ∈ s.list p, entry.2.1 = (s.reg p).firstReceivedTs

theorem initial_firstReply : FirstReply (Cell.initial n) := by
  constructor <;> simp [initial_phase]

theorem store_readval (reg : AtomicRegisterState) (w : Write) :
    (store reg w).readval = reg.readval ∧ (store reg w).skipImpose = reg.skipImpose ∧
      (store reg w).firstReceivedTs = reg.firstReceivedTs := by
  unfold store
  split <;> exact ⟨rfl,rfl,rfl⟩

theorem wait_firstReply (replies : Replies s) (valid : FirstReply s)
    (querying : s.phase p = .querying .read) (present : ⟨q,p,.value v⟩ ∈ s.flight) :
    (∃ entry ∈ insertReply (s.list p) v.senderRank v.triple,
      entry.2.1 = (noteReply (s.reg p) (s.list p) v).firstReceivedTs ∧
      entry.2.2.2 = (noteReply (s.reg p) (s.list p) v).readval) ∧
    ((noteReply (s.reg p) (s.list p) v).skipImpose = true →
      ∀ entry ∈ insertReply (s.list p) v.senderRank v.triple,
        entry.2.1 = (noteReply (s.reg p) (s.list p) v).firstReceivedTs) := by
  have reading : (s.reg p).reading = true := by
    simpa using replies.reading p .read (by rw [querying]; rfl)
  rw [inserted replies present]
  unfold noteReply
  rw [if_pos reading]
  by_cases empty : s.list p = []
  · rw [empty,List.isEmpty_nil,if_pos rfl]
    refine ⟨⟨_,List.mem_singleton_self _,rfl,rfl⟩,fun _ entry member => ?_⟩
    rw [List.mem_singleton.mp member]
    rfl
  · have full : ¬(s.list p).isEmpty = true := by simpa using empty
    obtain ⟨entry,member,stamp,value⟩ := valid.first p querying empty
    rw [if_neg full]
    split
    · exact ⟨⟨entry,List.mem_cons_of_mem _ member,stamp,value⟩,by simp⟩
    · rename_i same
      refine ⟨⟨entry,List.mem_cons_of_mem _ member,stamp,value⟩,fun skip other inside => ?_⟩
      rcases List.mem_cons.mp inside with rfl | old
      · have equal : (s.reg p).firstReceivedTs = v.ts := by simpa [skip] using same
        exact equal.symm
      · exact valid.skip p querying skip other old

theorem step_firstReply (replies : Replies s) (valid : FirstReply s) (step : Step guard s next) :
    FirstReply next := by
  have kept (p : Fin n) (list : next.list p = s.list p) (phase : next.phase p = s.phase p)
      (readval : (next.reg p).readval = (s.reg p).readval)
      (skip : (next.reg p).skipImpose = (s.reg p).skipImpose)
      (stamp : (next.reg p).firstReceivedTs = (s.reg p).firstReceivedTs)
      (querying : next.phase p = .querying .read) :
      (next.list p ≠ [] → ∃ entry ∈ next.list p, entry.2.1 = (next.reg p).firstReceivedTs ∧
        entry.2.2.2 = (next.reg p).readval) ∧
      ((next.reg p).skipImpose = true → ∀ entry ∈ next.list p,
        entry.2.1 = (next.reg p).firstReceivedTs) := by
    rw [list,readval,skip,stamp]
    exact ⟨valid.first p (phase ▸ querying),valid.skip p (phase ▸ querying)⟩
  have both (p : Fin n) (querying : next.phase p = .querying .read) :
      (next.list p ≠ [] → ∃ entry ∈ next.list p, entry.2.1 = (next.reg p).firstReceivedTs ∧
        entry.2.2.2 = (next.reg p).readval) ∧
      ((next.reg p).skipImpose = true → ∀ entry ∈ next.list p,
        entry.2.1 = (next.reg p).firstReceivedTs) := by
    cases step_moves step p with
    | same reg list phase =>
      exact kept p list phase (by rw [reg]) (by rw [reg]) (by rw [reg]) querying
    | begin kind fresh reg list phase => simp [list]
    | wait q v present rest checked few reg list phase =>
      rw [reg,list]
      obtain ⟨first,skip⟩ := wait_firstReply replies valid (phase ▸ querying) present
      exact ⟨fun _ => first,skip⟩
    | answer q v present rest checked many _ unanimous reg list phase => simp [list]
    | impose q v kind best w present rest checked many _ split greatest chosen reg list phase =>
      simp [list]
    | store p' w present reg list phase =>
      obtain ⟨readval,skip,stamp⟩ := store_readval (s.reg p) w
      exact kept p list phase (by rw [reg,readval]) (by rw [reg,skip]) (by rw [reg,stamp]) querying
    | ack q a present rest few reg list phase =>
      exact kept p list phase (by rw [reg]) (by rw [reg]) (by rw [reg]) querying
    | complete q a kind w present rest many imposing reg list phase => simp [phase] at querying
  exact ⟨fun p querying => (both p querying).1,fun p querying => (both p querying).2⟩

theorem reached_firstReply (path : Reached guard n s) : FirstReply s := by
  induction path with
  | initial => exact initial_firstReply
  | step prior step ih => exact step_firstReply (reached_replies prior) ih step

section Late
variable (late : ∀ n reg list v imposing, guard n reg list v imposing →
  lateGuard n reg list v imposing)

-- An imposing read still holds the value it broadcast, and answers with it.
structure Imposed (s : Cell n) : Prop where
  readval : ∀ p w, s.phase p = .imposing .read w → (s.reg p).readval = w.value
  out : ∀ p w out, s.phase p = .done .read (some w) out → out = w.value

theorem initial_imposed : Imposed (Cell.initial n) := by
  constructor <;> simp [initial_phase]

theorem late_readval (reading : reg.reading = true)
    (checked : lateGuard n reg list v true) : (noteReply reg list v).readval = reg.readval := by
  rw [noteReply_readval reading]
  unfold firstValue
  split
  · rename_i empty
    exact checked rfl reading (List.isEmpty_iff.mp empty)
  · rfl

include late in
theorem readval_step (replies : Replies s) (valid : Imposed s) (step : Step guard s next)
    (p : Fin n) (w : Write) (imposing : next.phase p = .imposing .read w) :
    (next.reg p).readval = w.value := by
  cases step_moves step p with
  | same reg list phase => rw [reg]; exact valid.readval p w (phase ▸ imposing)
  | begin kind fresh reg list phase => simp [phase] at imposing
  | wait q v present rest checked few reg list phase =>
    rw [phase] at imposing
    have reading := replies.reading p .read (by rw [imposing]; rfl)
    rw [imposing] at checked
    rw [reg,late_readval (by simpa using reading) (late _ _ _ _ _ checked)]
    exact valid.readval p w imposing
  | answer q v present rest checked many querying unanimous reg list phase =>
    simp [phase] at imposing
  | impose q v kind best w' present rest checked many querying split greatest chosen reg list phase =>
    rw [phase] at imposing
    cases imposing
    have reading := replies.reading p .read (by rw [querying]; rfl)
    rw [reg,chosen]
    exact (imposed_read _ (by simpa using reading) v best).2.symm
  | store p' w' present reg list phase =>
    rw [reg,(store_readval _ w').1]; exact valid.readval p w (phase ▸ imposing)
  | ack q a present rest few reg list phase =>
    rw [reg]; exact valid.readval p w (phase ▸ imposing)
  | complete q a kind w' present rest many _ reg list phase => simp [phase] at imposing

theorem out_step (valid : Imposed s) (step : Step guard s next) (p : Fin n) (w : Write) (out : ℕ)
    (done : next.phase p = .done .read (some w) out) : out = w.value := by
  cases step_moves step p with
  | same reg list phase => exact valid.out p w out (phase ▸ done)
  | begin kind fresh reg list phase => simp [phase] at done
  | wait q v present rest checked few reg list phase => exact valid.out p w out (phase ▸ done)
  | answer q v present rest checked many querying unanimous reg list phase => simp [phase] at done
  | impose q v kind best w' present rest checked many querying split greatest chosen reg list phase =>
    simp [phase] at done
  | store p' w' present reg list phase => exact valid.out p w out (phase ▸ done)
  | ack q a present rest few reg list phase => exact valid.out p w out (phase ▸ done)
  | complete q a kind w' present rest many imposing reg list phase =>
    rw [phase] at done
    cases done
    exact valid.readval p w imposing

include late in
theorem reached_imposed (path : Reached guard n s) : Imposed s := by
  induction path with
  | initial => exact initial_imposed
  | step prior step ih =>
    exact ⟨readval_step late (reached_replies prior) ih step,out_step ih step⟩

end Late

-- A tag names the process that wrote the value, and every holder of the tag
-- has the rank of that process (0 at the start) as its value.
structure Faithful (s : Cell n) : Prop where
  stored : ∀ p, (s.reg p).value = (s.reg p).wr
  sent : ∀ q p v, ⟨q,p,.value v⟩ ∈ s.flight → v.value = v.wr
  listed : ∀ p, ∀ entry ∈ s.list p, entry.2.2.2 = entry.2.2.1
  written : ∀ p w, (s.phase p).write? = some w → w.value = w.wr

theorem initial_faithful : Faithful (Cell.initial n) := by
  constructor <;> simp [Cell.initial,Phase.write?,AtomicRegisterState.new]

theorem inserted_faithful (valid : Faithful s) (present : ⟨q,p,.value v⟩ ∈ s.flight)
    (member : entry ∈ insertReply (s.list p) v.senderRank v.triple) :
    entry.2.2.2 = entry.2.2.1 := by
  rcases insertReply_mem member with old | rfl
  · exact valid.listed p entry old
  · exact valid.sent q p v present

theorem stored_faithful (replies : Replies s) (acks : Acks s) (valid : Faithful s)
    (step : Step tagGuard s next) (p : Fin n) : (next.reg p).value = (next.reg p).wr := by
  cases step_moves step p with
  | same reg list phase => rw [reg]; exact valid.stored p
  | begin kind fresh reg list phase =>
    rw [reg]
    cases kind <;> exact valid.stored p
  | wait q v present rest checked few reg list phase => simpa [reg] using valid.stored p
  | answer q v present rest checked many querying unanimous reg list phase =>
    have reading : (s.reg p).reading = true := by
      simpa using replies.reading p .read (by rw [querying]; rfl)
    have fast : fastQuorum n (s.reg p) (s.list p) v = true := by
      simp [fastQuorum,many,reading,unanimous]
    rw [reg]
    calc (noteReply (s.reg p) (s.list p) v).readval
        = firstValue (s.reg p) (s.list p) v := noteReply_readval reading _ _
      _ = (s.reg p).value := checked fast
      _ = (s.reg p).wr := valid.stored p
      _ = (noteReply (s.reg p) (s.list p) v).wr := (noteReply_wr _ _ _).symm
  | impose q v kind best w present rest checked many querying split greatest chosen reg list phase =>
    simpa [reg] using valid.stored p
  | store p' w present reg list phase =>
    rw [reg]
    unfold store
    split
    · exact valid.written p' w (acks.content p' p w present)
    · exact valid.stored p
  | ack q a present rest few reg list phase => rw [reg]; exact valid.stored p
  | complete q a kind w present rest many imposing reg list phase => rw [reg]; exact valid.stored p

theorem written_faithful (replies : Replies s) (writers : Writers next) (valid : Faithful s)
    (step : Step guard s next) (p : Fin n) (w : Write) (written : (next.phase p).write? = some w) :
    w.value = w.wr := by
  cases step_moves step p with
  | same reg list phase => exact valid.written p w (phase ▸ written)
  | begin kind fresh reg list phase => simp [phase,Phase.write?] at written
  | wait q v present rest checked few reg list phase => exact valid.written p w (phase ▸ written)
  | answer q v present rest checked many querying unanimous reg list phase =>
    simp [phase,Phase.write?] at written
  | impose q v kind best w' present rest checked many querying split greatest chosen reg list phase =>
    cases kind with
    | write =>
      obtain ⟨rank,value,_⟩ := writers.broadcast p w (by rw [phase]; rfl) written
      rw [rank,value]
    | read =>
      rw [phase] at written
      cases written
      have reading := replies.reading p .read (by rw [querying]; rfl)
      obtain ⟨entry,member,rfl⟩ := maxReply_mem greatest
      rw [chosen]
      simpa [imposedWrite,reading] using inserted_faithful valid present member
  | store p' w' present reg list phase => exact valid.written p w (phase ▸ written)
  | ack q a present rest few reg list phase => exact valid.written p w (phase ▸ written)
  | complete q a kind w' present rest many imposing reg list phase =>
    rw [phase] at written
    cases written
    exact valid.written p w (by rw [imposing]; rfl)

theorem step_faithful (replies : Replies s) (acks : Acks s) (writers : Writers next)
    (valid : Faithful s) (step : Step tagGuard s next) : Faithful next where
  stored := stored_faithful replies acks valid step
  sent q p v present := by
    cases packet_origin step present with
    | old before => exact valid.sent q p v before
    | value asked => exact valid.stored q
  listed p entry member := by
    cases entry_origin step member with
    | old before => exact valid.listed p entry before
    | new present rest => exact valid.sent _ p _ present
  written := written_faithful replies writers valid step

theorem reached_faithful (path : Reached tagGuard n s) : Faithful s := by
  induction path with
  | initial => exact initial_faithful
  | step prior step ih =>
    exact step_faithful (reached_replies prior) (reached_acks prior)
      (reached_writers (prior.step step)) ih step

end KompicsBenches.RegisterValues
