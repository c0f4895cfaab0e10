import KompicsBenches.RegisterReplies

namespace KompicsBenches.RegisterAcks
open RegisterNode RegisterCell RegisterFootprint RegisterReplies Flight Quorum
variable {n : ℕ} {guard : Guard} {s next : Cell n}

-- A majority of the replicas holds this tag or a later one.
def Covered (s : Cell n) (t : Tag) : Prop :=
  ∃ holders : Finset (Fin n), Majority holders ∧ ∀ q ∈ holders, t ≤ (s.reg q).tag

theorem step_covered (step : Step guard s next) (covered : Covered s t) : Covered next t := by
  obtain ⟨holders,large,high⟩ := covered
  exact ⟨holders,large,fun q member => (high q member).trans (step_tag step q)⟩

-- `counted` are the replicas behind the current value of `acks`, `spent` those
-- behind the quorum that completed the operation.
structure Counted (s : Cell n) (p : Fin n) (counted spent : Finset (Fin n)) : Prop where
  acks : (s.reg p).acks = counted.card
  apart : Disjoint counted spent
  used : ∀ q ∈ counted ∪ spent, (true,p,q) ∉ outstanding token s.flight
  stored : ∀ q ∈ counted ∪ spent, ∀ w, (s.phase p).write? = some w → w.tag ≤ (s.reg q).tag
  before : (s.phase p).write? = none → counted = ∅ ∧ spent = ∅
  after : ∀ kind w out, s.phase p = .done kind (some w) out → Majority spent

structure Acks (s : Cell n) : Prop where
  content : ∀ p q w, ⟨p,q,.write w⟩ ∈ s.flight → (s.phase p).write? = some w
  stored : ∀ q p a w, ⟨q,p,.ack a⟩ ∈ s.flight → (s.phase p).write? = some w →
    w.tag ≤ (s.reg q).tag
  counted : ∀ p, ∃ counted spent, Counted s p counted spent

theorem initial_acks : Acks (Cell.initial n) := by
  refine ⟨by simp [Cell.initial],by simp [Cell.initial],fun p => ⟨∅,∅,?_⟩⟩
  constructor <;> simp [Cell.initial,AtomicRegisterState.new,Phase.write?]

theorem content_step (valid : Acks s) (step : Step guard s next) (p q : Fin n) (w : Write)
    (present : ⟨p,q,.write w⟩ ∈ next.flight) : (next.phase p).write? = some w := by
  cases packet_origin step present with
  | old before => exact (step_advance step p).written (valid.content p q w before)
  | write querying imposing => rw [imposing]; rfl

theorem written_before (tokens : Tokens s) (step : Step guard s next)
    (owed : (true,p,q) ∈ outstanding token s.flight) :
    (next.phase p).write? = (s.phase p).write? := by
  obtain ⟨w,known⟩ := Option.isSome_iff_exists.mp (tokens.imposed p q owed)
  rw [known,(step_advance step p).written known]

theorem stored_step (tokens : Tokens s) (valid : Acks s) (step : Step guard s next) (q p : Fin n)
    (a : Ack) (w : Write) (present : ⟨q,p,.ack a⟩ ∈ next.flight)
    (known : (next.phase p).write? = some w) : w.tag ≤ (next.reg q).tag := by
  cases packet_origin step present with
  | old before =>
    rw [written_before tokens step (token_mem before)] at known
    exact (valid.stored q p a w before known).trans (step_tag step q)
  | ack sent kept =>
    rename_i w'
    rw [written_before tokens step (token_mem sent),valid.content p q w' sent] at known
    cases known
    rw [kept,store_tag]
    exact le_max_right _ _

-- The replica of an acknowledgement in flight is not counted yet.
theorem uncounted (valid : Counted s p counted spent) (present : ⟨q,p,.ack a⟩ ∈ s.flight) :
    q ∉ counted ∪ spent :=
  fun member => valid.used q member (token_mem present)

theorem counted_insert (valid : Counted s p counted spent) (present : ⟨q,p,.ack a⟩ ∈ s.flight) :
    (insert q counted).card = (s.reg p).acks + 1 ∧ Disjoint (insert q counted) spent := by
  have fresh := uncounted valid present
  rw [Finset.mem_union,not_or] at fresh
  rw [Finset.card_insert_of_notMem fresh.1,valid.acks,Finset.disjoint_insert_left]
  exact ⟨rfl,fresh.2,valid.apart⟩

-- Late acknowledgements never form a second quorum.
theorem quorum_imposing (tokens : Tokens s) (valid : Acks s) (present : ⟨q,p,.ack a⟩ ∈ s.flight)
    (many : n / 2 < (s.reg p).acks + 1) : ∃ kind w, s.phase p = .imposing kind w := by
  obtain ⟨w,known⟩ := Option.isSome_iff_exists.mp (tokens.imposed p q (token_mem present))
  obtain ⟨counted,spent,count⟩ := valid.counted p
  obtain ⟨size,apart⟩ := counted_insert count present
  cases phase : s.phase p with
  | idle => simp [phase,Phase.write?] at known
  | querying kind => simp [phase,Phase.write?] at known
  | imposing kind w => exact ⟨kind,w,rfl⟩
  | done kind written out =>
    have written : written = some w := by simpa [phase,Phase.write?] using known
    have large := count.after kind w out (by rw [phase,written])
    refine absurd ?_ (disjoint_minor apart.symm large)
    rw [Majority,Fintype.card_fin,size,← half_lt]
    exact many

theorem counted_kept (tokens : Tokens s) (count : Counted s p counted spent)
    (step : Step guard s next) (acks : (next.reg p).acks = (s.reg p).acks)
    (phase : next.phase p = s.phase p) : Counted next p counted spent where
  acks := acks.trans count.acks
  apart := count.apart
  used q member := by
    cases written : (s.phase p).write? with
    | none =>
      obtain ⟨rfl,rfl⟩ := count.before written
      simp at member
    | some w => exact impose_kept tokens step (by simp [written]) (count.used q member)
  stored q member w known := (count.stored q member w (phase ▸ known)).trans (step_tag step q)
  before unwritten := count.before (phase ▸ unwritten)
  after kind w out known := count.after kind w out (phase ▸ known)

theorem counted_empty (acks : (next.reg p).acks = 0)
    (unfinished : ∀ kind w out, next.phase p ≠ .done kind (some w) out) :
    Counted next p ∅ ∅ where
  acks := by simp [acks]
  apart := by simp
  used q member := by simp at member
  stored q member := by simp at member
  before _ := ⟨rfl,rfl⟩
  after kind w out known := absurd known (unfinished kind w out)

theorem unwritten_acks (valid : Acks s) (unwritten : (s.phase p).write? = none) :
    (s.reg p).acks = 0 := by
  obtain ⟨counted,spent,count⟩ := valid.counted p
  rw [count.acks,(count.before unwritten).1,Finset.card_empty]

theorem ack_used (tokens : Tokens s) (count : Counted s p counted spent)
    (present : ⟨q,p,.ack a⟩ ∈ s.flight) (rest : next.flight = s.flight.erase ⟨q,p,.ack a⟩)
    (member : q' ∈ insert q counted ∪ spent) : (true,p,q') ∉ outstanding token next.flight := by
  rw [rest,mem_consumed tokens.nodup present]
  rintro ⟨other,owed⟩
  rw [Finset.insert_union,Finset.mem_insert] at member
  rcases member with rfl | old
  · exact other rfl
  · exact count.used q' old owed

theorem ack_stored (valid : Acks s) (count : Counted s p counted spent)
    (present : ⟨q,p,.ack a⟩ ∈ s.flight) (step : Step guard s next)
    (known : (s.phase p).write? = some w) (member : q' ∈ insert q counted ∪ spent) :
    w.tag ≤ (next.reg q').tag := by
  rw [Finset.insert_union,Finset.mem_insert] at member
  refine le_trans ?_ (step_tag step q')
  rcases member with rfl | old
  · exact valid.stored q' p a w present known
  · exact count.stored q' old w known

theorem counted_step (tokens : Tokens s) (valid : Acks s) (step : Step guard s next) (p : Fin n) :
    ∃ counted spent, Counted next p counted spent := by
  obtain ⟨counted,spent,count⟩ := valid.counted p
  cases step_moves step p with
  | same reg list phase => exact ⟨_,_,counted_kept tokens count step (by rw [reg]) phase⟩
  | begin kind fresh reg list phase =>
    exact ⟨∅,∅,counted_empty (by simp [reg]) (by simp [phase])⟩
  | wait q v present rest checked few reg list phase =>
    exact ⟨_,_,counted_kept tokens count step (by simp [reg]) phase⟩
  | answer q v present rest checked many querying unanimous reg list phase =>
    have none := unwritten_acks valid (p := p) (by rw [querying]; rfl)
    exact ⟨∅,∅,counted_empty (by simpa [reg] using none) (by simp [phase])⟩
  | impose q v kind best w present rest checked many querying split greatest chosen reg list phase =>
    have none := unwritten_acks valid (p := p) (by rw [querying]; rfl)
    exact ⟨∅,∅,counted_empty (by simpa [reg] using none) (by simp [phase])⟩
  | store p' w present reg list phase =>
    exact ⟨_,_,counted_kept tokens count step (by simp [reg]) phase⟩
  | ack q a present rest few reg list phase =>
    obtain ⟨size,apart⟩ := counted_insert count present
    obtain ⟨w,known⟩ := Option.isSome_iff_exists.mp (tokens.imposed p q (token_mem present))
    refine ⟨insert q counted,spent,?_,apart,?_,?_,?_,?_⟩
    · rw [reg,size]
    · exact fun q' member => ack_used tokens count present rest member
    · intro q' member w' known'
      exact ack_stored valid count present step (phase ▸ known') member
    · intro unwritten
      rw [phase,known] at unwritten
      cases unwritten
    · intro kind w' out finished
      exact count.after kind w' out (phase ▸ finished)
  | complete q a kind w present rest many imposing reg list phase =>
    obtain ⟨size,apart⟩ := counted_insert count present
    -- The replicas counted so far move over to the spent ones.
    refine ⟨∅,insert q counted ∪ spent,by simp [reg],by simp,?_,?_,?_,?_⟩
    · rw [Finset.empty_union]
      exact fun q' member => ack_used tokens count present rest member
    · rw [Finset.empty_union]
      intro q' member w' known
      rw [phase] at known
      cases known
      exact ack_stored valid count present step (by rw [imposing]; rfl) member
    · simp [phase,Phase.write?]
    · intro _ _ _ _
      refine larger (Finset.subset_union_left) ?_
      rw [Majority,Fintype.card_fin,size,← half_lt]
      exact many

theorem step_acks (tokens : Tokens s) (valid : Acks s) (step : Step guard s next) : Acks next where
  content := content_step valid step
  stored := stored_step tokens valid step
  counted := counted_step tokens valid step

theorem reached_acks (path : Reached guard n s) : Acks s := by
  induction path with
  | initial => exact initial_acks
  | step prior step ih => exact step_acks (reached_tokens prior) ih step

-- An operation that completed through its acknowledgements has a majority of
-- the replicas at its tag.
theorem done_covered (valid : Acks s) (done : s.phase p = .done kind (some w) out) :
    Covered s w.tag := by
  obtain ⟨counted,spent,count⟩ := valid.counted p
  refine ⟨spent,count.after kind w out done,fun q member => ?_⟩
  exact count.stored q (Finset.mem_union_right _ member) w (by rw [done]; rfl)

end KompicsBenches.RegisterAcks
