import KompicsBenches.RegisterFootprint

namespace KompicsBenches.RegisterReplies
open RegisterNode RegisterCell RegisterFootprint Flight Quorum
variable {n : ℕ} {guard : Guard} {s next : Cell n}

theorem insertReply_fresh {list : Readlist} (fresh : rank ∉ list.map Prod.fst) (reply : Triple) :
    insertReply list rank reply = (rank,reply) :: list := by
  unfold insertReply
  rw [List.filter_eq_self.mpr]
  intro entry member
  have other : entry.1 ≠ rank := by
    rintro rfl
    exact fresh (List.mem_map_of_mem member)
  simpa using other

-- The replicas whose reply is in a readlist.
def heardFrom (list : Readlist) : Finset (Fin n) :=
  Finset.univ.filter fun q => rankOf q ∈ list.map Prod.fst

@[simp] theorem mem_heardFrom {list : Readlist} {q : Fin n} :
    q ∈ heardFrom list ↔ rankOf q ∈ list.map Prod.fst := by
  simp [heardFrom]

theorem card_heardFrom {list : Readlist} (distinct : (list.map Prod.fst).Nodup)
    (ranks : ∀ entry ∈ list, ∃ q : Fin n, entry.1 = rankOf q) :
    (heardFrom (n := n) list).card = list.length := by
  have image : (heardFrom (n := n) list).image rankOf = (list.map Prod.fst).toFinset := by
    ext rank
    simp only [Finset.mem_image,mem_heardFrom,List.mem_toFinset]
    constructor
    · rintro ⟨q,member,rfl⟩
      exact member
    · intro member
      obtain ⟨entry,inside,rfl⟩ := List.mem_map.mp member
      obtain ⟨q,same⟩ := ranks entry inside
      exact ⟨q,same ▸ member,same.symm⟩
  rw [← Finset.card_image_of_injective _ fun p q => (rankOf_inj (n := n)).mp,image,
    List.toFinset_card_of_nodup distinct,List.length_map]

theorem quorum_iff {list : Readlist} (distinct : (list.map Prod.fst).Nodup)
    (ranks : ∀ entry ∈ list, ∃ q : Fin n, entry.1 = rankOf q) :
    n / 2 < list.length ↔ Majority (heardFrom (n := n) list) := by
  rw [half_lt,Majority,card_heardFrom distinct ranks,Fintype.card_fin]

-- Replies to a query: who they come from, and that a replica whose reply was
-- already used up owes no other one.
structure Replies (s : Cell n) : Prop where
  sender : ∀ q p v, ⟨q,p,.value v⟩ ∈ s.flight → v.senderRank = rankOf q
  reading : ∀ p kind, (s.phase p).kind? = some kind → (s.reg p).reading = decide (kind = .read)
  heard : ∀ p, ∀ entry ∈ s.list p, ∃ q, entry.1 = rankOf q ∧
    (false,p,q) ∉ outstanding token s.flight
  distinct : ∀ p, ((s.list p).map Prod.fst).Nodup
  quiet : ∀ p, s.phase p = .idle → s.list p = []
  spent : ∀ p, (s.phase p).collected = true → ∃ spent, Majority spent ∧
    ∀ q ∈ spent, (false,p,q) ∉ outstanding token s.flight ∧ rankOf q ∉ (s.list p).map Prod.fst

theorem initial_replies : Replies (Cell.initial n) := by
  constructor <;> simp [Cell.initial,Phase.kind?,Phase.collected]

theorem sender_unheard (valid : Replies s) (present : ⟨q,p,.value v⟩ ∈ s.flight) :
    v.senderRank ∉ (s.list p).map Prod.fst := by
  intro member
  obtain ⟨entry,inside,same⟩ := List.mem_map.mp member
  obtain ⟨q',named,absent⟩ := valid.heard p entry inside
  have equal : q' = q := rankOf_inj.mp (by rw [← named,same,valid.sender q p v present])
  exact absent (equal ▸ token_mem present)

theorem inserted (valid : Replies s) (present : ⟨q,p,.value v⟩ ∈ s.flight) :
    insertReply (s.list p) v.senderRank v.triple = (rankOf q,v.triple) :: s.list p := by
  rw [insertReply_fresh (sender_unheard valid present),valid.sender q p v present]

theorem inserted_distinct (valid : Replies s) (present : ⟨q,p,.value v⟩ ∈ s.flight) :
    ((insertReply (s.list p) v.senderRank v.triple).map Prod.fst).Nodup := by
  rw [inserted valid present,List.map_cons,List.nodup_cons,← valid.sender q p v present]
  exact ⟨sender_unheard valid present,valid.distinct p⟩

theorem inserted_ranks (valid : Replies s) (present : ⟨q,p,.value v⟩ ∈ s.flight) :
    ∀ entry ∈ insertReply (s.list p) v.senderRank v.triple, ∃ q : Fin n, entry.1 = rankOf q := by
  rw [inserted valid present]
  intro entry member
  rcases List.mem_cons.mp member with rfl | old
  · exact ⟨q,rfl⟩
  · obtain ⟨q',named,_⟩ := valid.heard p entry old
    exact ⟨q',named⟩

-- Late replies never form a second quorum.
theorem spent_few (valid : Replies s) (present : ⟨q,p,.value v⟩ ∈ s.flight)
    (collected : (s.phase p).collected = true) :
    ¬n / 2 < (insertReply (s.list p) v.senderRank v.triple).length := by
  obtain ⟨spent,large,used⟩ := valid.spent p collected
  rw [quorum_iff (inserted_distinct valid present) (inserted_ranks valid present)]
  refine disjoint_minor (Finset.disjoint_left.mpr ?_) large
  intro q' old new
  rw [mem_heardFrom,inserted valid present,List.map_cons,List.mem_cons,rankOf_inj] at new
  rcases new with rfl | again
  · exact (used q' old).1 (token_mem present)
  · exact (used q' old).2 again

theorem quorum_querying (tokens : Tokens s) (valid : Replies s)
    (present : ⟨q,p,.value v⟩ ∈ s.flight)
    (many : n / 2 < (insertReply (s.list p) v.senderRank v.triple).length) :
    ∃ kind, s.phase p = .querying kind := by
  have started := tokens.asked p q (token_mem present)
  have late := fun collected => spent_few valid present collected many
  cases known : s.phase p with
  | querying kind => exact ⟨kind,rfl⟩
  | idle => exact absurd known started
  | imposing kind w => exact absurd (by simp [known,Phase.collected]) late
  | done kind w out => exact absurd (by simp [known,Phase.collected]) late

theorem inserted_used (tokens : Tokens s) (valid : Replies s)
    (present : ⟨q,p,.value v⟩ ∈ s.flight)
    (member : rankOf q' ∈ (insertReply (s.list p) v.senderRank v.triple).map Prod.fst) :
    (false,p,q') ∉ outstanding token (s.flight.erase ⟨q,p,.value v⟩) := by
  intro again
  obtain ⟨other,before⟩ := (mem_consumed tokens.nodup present).mp again
  rw [inserted valid present,List.map_cons,List.mem_cons,rankOf_inj] at member
  rcases member with rfl | old
  · exact other rfl
  · obtain ⟨entry,inside,same⟩ := List.mem_map.mp old
    obtain ⟨q'',named,absent⟩ := valid.heard p entry inside
    have equal : q'' = q' := rankOf_inj.mp (named.symm.trans same)
    exact absent (equal ▸ before)

theorem heard_step (tokens : Tokens s) (valid : Replies s) (step : Step guard s next) (p : Fin n) :
    ∀ entry ∈ next.list p, ∃ q, entry.1 = rankOf q ∧
      (false,p,q) ∉ outstanding token next.flight := by
  intro entry member
  cases entry_origin step member with
  | old inside =>
    have started : s.phase p ≠ .idle := fun idle => by simp [valid.quiet p idle] at inside
    obtain ⟨q,named,absent⟩ := valid.heard p entry inside
    exact ⟨q,named,query_kept tokens step started absent⟩
  | @new q v present rest =>
    refine ⟨q,valid.sender q p v present,?_⟩
    rw [rest,mem_consumed tokens.nodup present]
    intro both
    exact both.1 rfl

theorem distinct_step (valid : Replies s) (step : Step guard s next) (p : Fin n) :
    ((next.list p).map Prod.fst).Nodup := by
  cases step_moves step p with
  | same reg list phase => rw [list]; exact valid.distinct p
  | begin kind fresh reg list phase => simp [list]
  | wait q v present rest checked few reg list phase =>
    rw [list]; exact inserted_distinct valid present
  | answer q v present rest checked many querying unanimous reg list phase => simp [list]
  | impose q v kind best w present rest checked many querying split greatest chosen reg list phase =>
    simp [list]
  | store p' w present reg list phase => rw [list]; exact valid.distinct p
  | ack q a present rest few reg list phase => rw [list]; exact valid.distinct p
  | complete q a kind w present rest many imposing reg list phase =>
    rw [list]; exact valid.distinct p

theorem reading_step (valid : Replies s) (step : Step guard s next) (p : Fin n) (kind : OpKind)
    (known : (next.phase p).kind? = some kind) :
    (next.reg p).reading = decide (kind = .read) := by
  cases step_moves step p with
  | same reg list phase => rw [reg]; exact valid.reading p kind (phase ▸ known)
  | begin kind' fresh reg list phase =>
    rw [phase] at known
    cases known
    simp [reg]
  | wait q v present rest checked few reg list phase =>
    rw [reg,noteReply_reading]; exact valid.reading p kind (phase ▸ known)
  | answer q v present rest checked many querying unanimous reg list phase =>
    rw [phase] at known
    cases known
    simpa [reg] using valid.reading p .read (by rw [querying]; rfl)
  | impose q v kind' best w present rest checked many querying split greatest chosen reg list phase =>
    rw [phase] at known
    cases known
    simpa [reg] using valid.reading p kind (by rw [querying]; rfl)
  | store p' w present reg list phase =>
    rw [reg,store_reading]; exact valid.reading p kind (phase ▸ known)
  | ack q a present rest few reg list phase =>
    rw [reg]; exact valid.reading p kind (phase ▸ known)
  | complete q a kind' w present rest many imposing reg list phase =>
    rw [phase] at known
    cases known
    rw [reg]; exact valid.reading p kind (by rw [imposing]; rfl)

-- The replicas heard in a quorum are the spent ones of every later state.
theorem spent_step (tokens : Tokens s) (valid : Replies s) (step : Step guard s next) (p : Fin n)
    (collected : (next.phase p).collected = true) :
    ∃ spent, Majority spent ∧ ∀ q ∈ spent, (false,p,q) ∉ outstanding token next.flight ∧
      rankOf q ∉ (next.list p).map Prod.fst := by
  have kept (before : (s.phase p).collected = true) (list : next.list p = s.list p) :
      ∃ spent, Majority spent ∧ ∀ q ∈ spent, (false,p,q) ∉ outstanding token next.flight ∧
        rankOf q ∉ (next.list p).map Prod.fst := by
    obtain ⟨spent,large,used⟩ := valid.spent p before
    have started : s.phase p ≠ .idle := fun idle => by simp [idle,Phase.collected] at before
    refine ⟨spent,large,fun q member => ⟨query_kept tokens step started (used q member).1,?_⟩⟩
    rw [list]
    exact (used q member).2
  have heard (q : Fin n) (v : Value) (present : ⟨q,p,.value v⟩ ∈ s.flight)
      (many : n / 2 < (insertReply (s.list p) v.senderRank v.triple).length)
      (list : next.list p = [])
      (fewer : ∀ q', (false,p,q') ∈ outstanding token next.flight →
        (false,p,q') ∈ outstanding token (s.flight.erase ⟨q,p,.value v⟩)) :
      ∃ spent, Majority spent ∧ ∀ q ∈ spent, (false,p,q) ∉ outstanding token next.flight ∧
        rankOf q ∉ (next.list p).map Prod.fst := by
    refine ⟨_,(quorum_iff (inserted_distinct valid present) (inserted_ranks valid present)).mp many,?_⟩
    intro q' member
    rw [mem_heardFrom] at member
    exact ⟨fun again => inserted_used tokens valid present member (fewer q' again),by simp [list]⟩
  cases step_moves step p with
  | same reg list phase => exact kept (phase ▸ collected) list
  | begin kind fresh reg list phase => simp [phase,Phase.collected] at collected
  | wait q v present rest checked few reg list phase =>
    obtain ⟨spent,large,used⟩ := valid.spent p (phase ▸ collected)
    refine ⟨spent,large,fun q' member => ⟨?_,?_⟩⟩
    · rw [rest,mem_consumed tokens.nodup present]
      intro both
      exact (used q' member).1 both.2
    · rw [list,inserted valid present,List.map_cons,List.mem_cons,rankOf_inj]
      rintro (rfl | again)
      · exact (used q' member).1 (token_mem present)
      · exact (used q' member).2 again
  | answer q v present rest checked many querying unanimous reg list phase =>
    exact heard q v present many list fun q' member => rest ▸ member
  | impose q v kind best w present rest checked many querying split greatest chosen reg list phase =>
    refine heard q v present many list fun q' member => ?_
    rw [rest,outstanding_add,open_writes,Multiset.mem_add] at member
    exact member.resolve_right (by simp)
  | store p' w present reg list phase => exact kept (phase ▸ collected) list
  | ack q a present rest few reg list phase => exact kept (phase ▸ collected) list
  | complete q a kind w present rest many imposing reg list phase =>
    exact kept (by rw [imposing]; rfl) list

theorem quiet_step (tokens : Tokens s) (valid : Replies s) (step : Step guard s next) (p : Fin n)
    (idle : next.phase p = .idle) : next.list p = [] := by
  have before : s.phase p = .idle := by
    by_contra started
    exact (step_advance step p).started started idle
  rw [List.eq_nil_iff_forall_not_mem]
  intro entry member
  cases entry_origin step member with
  | old inside => simp [valid.quiet p before] at inside
  | @new q v present rest => exact absurd before (tokens.asked p q (token_mem present))

theorem step_replies (tokens : Tokens s) (valid : Replies s) (step : Step guard s next) :
    Replies next where
  sender q p v present := by
    cases packet_origin step present with
    | old before => exact valid.sender q p v before
    | value asked => rfl
  reading := reading_step valid step
  heard := heard_step tokens valid step
  distinct := distinct_step valid step
  quiet := quiet_step tokens valid step
  spent := spent_step tokens valid step

theorem reached_replies (path : Reached guard n s) : Replies s := by
  induction path with
  | initial => exact initial_replies
  | step prior step ih => exact step_replies (reached_tokens prior) ih step

end KompicsBenches.RegisterReplies
