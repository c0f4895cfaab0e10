import KompicsBenches.Histories
import KompicsBenches.RegisterAcks

namespace KompicsBenches.RegisterOrder
open RegisterNode RegisterCell RegisterFootprint RegisterReplies RegisterAcks Flight Quorum
variable {n : ℕ} {guard : Guard} {s next : Cell n}

def tripleTag (x : Triple) : Tag := toLex (x.1,x.2.1)

theorem tripleTag_mono {x y : Triple} (below : x ≤ y) : tripleTag x ≤ tripleTag y := by
  obtain ⟨a,b,c⟩ := x
  obtain ⟨a',b',c'⟩ := y
  have lex : a < a' ∨ a = a' ∧ (b < b' ∨ b = b' ∧ c ≤ c') := by
    rcases Prod.Lex.toLex_le_toLex.mp below with less | ⟨same,rest⟩
    · exact .inl less
    · exact .inr ⟨same,Prod.Lex.toLex_le_toLex.mp rest⟩
  refine Prod.Lex.toLex_le_toLex.mpr ?_
  rcases lex with less | ⟨same,less | ⟨equal,_⟩⟩
  · exact .inl less
  · exact .inr ⟨same,less.le⟩
  · exact .inr ⟨same,equal.le⟩

theorem maxReply_mem {list : Readlist} (greatest : maxReply list = some best) :
    ∃ entry ∈ list, entry.2 = best := by
  obtain ⟨member,_⟩ := List.max?_eq_some_iff.mp greatest
  exact List.mem_map.mp member

theorem maxReply_le {list : Readlist} (greatest : maxReply list = some best)
    (member : entry ∈ list) : entry.2 ≤ best :=
  (List.max?_eq_some_iff.mp greatest).2 _ (List.mem_map_of_mem member)

theorem maxReply_isSome {list : Readlist} (present : entry ∈ list) :
    ∃ best, maxReply list = some best := by
  cases found : maxReply list with
  | some best => exact ⟨best,rfl⟩
  | none =>
    have empty := List.max?_eq_none_iff.mp found
    simp [List.map_eq_nil_iff.mp empty] at present

theorem imposed_read (rank : ℕ) (reading : reg.reading = true) (v : Value) (best : Triple) :
    (imposedWrite rank reg v best).tag = tripleTag best ∧
      (imposedWrite rank reg v best).value = best.2.2 := by
  simp [imposedWrite,reading,Write.tag,tripleTag]

theorem imposed_write (rank : ℕ) (writing : reg.reading = false) (v : Value) (best : Triple) :
    tripleTag best < (imposedWrite rank reg v best).tag ∧
      (imposedWrite rank reg v best).wr = rank ∧
      (imposedWrite rank reg v best).value = reg.writeval := by
  refine ⟨Prod.Lex.toLex_lt_toLex.mpr (.inl ?_),?_⟩ <;> simp [imposedWrite,writing]

-- Whatever quorum of replies `p` still collects, one of them carries `t` or a
-- later tag.
def Shielded (s : Cell n) (p : Fin n) (t : Tag) : Prop :=
  ∃ holders : Finset (Fin n), Majority holders ∧ ∀ q ∈ holders, t ≤ (s.reg q).tag ∧
    (∀ v, ⟨q,p,.value v⟩ ∈ s.flight → t ≤ v.tag) ∧
    ∀ entry ∈ s.list p, entry.1 = rankOf q → t ≤ tripleTag entry.2

theorem begin_shielded (tokens : Tokens s) (step : Step guard s next) (fresh : s.phase p = .idle)
    (begun : next.list p = []) (covered : Covered s t) : Shielded next p t := by
  obtain ⟨holders,large,high⟩ := covered
  refine ⟨holders,large,fun q member => ⟨(high q member).trans (step_tag step q),?_,?_⟩⟩
  · intro v present
    cases packet_origin step present with
    | old before => exact absurd fresh (tokens.asked p q (token_mem before))
    | value asked => exact absurd fresh (tokens.asked p q (token_mem asked))
  · simp [begun]

theorem step_shielded (replies : Replies s) (step : Step guard s next) (shield : Shielded s p t) :
    Shielded next p t := by
  obtain ⟨holders,large,high⟩ := shield
  refine ⟨holders,large,fun q member => ?_⟩
  obtain ⟨stored,sent,listed⟩ := high q member
  refine ⟨stored.trans (step_tag step q),?_,?_⟩
  · intro v present
    cases packet_origin step present with
    | old before => exact sent v before
    | value asked => exact stored
  · intro entry inside named
    cases entry_origin step inside with
    | old before => exact listed entry before named
    | @new q' v present rest =>
      have same : q' = q := rankOf_inj.mp ((replies.sender q' p v present).symm.trans named)
      exact sent v (same ▸ present)

-- Quorum intersection: the greatest reply is not below the shielded tag.
theorem greatest_above (replies : Replies s) (present : ⟨q,p,.value v⟩ ∈ s.flight)
    (many : n / 2 < (insertReply (s.list p) v.senderRank v.triple).length)
    (shield : Shielded s p t) :
    ∃ entry ∈ insertReply (s.list p) v.senderRank v.triple, t ≤ tripleTag entry.2 := by
  obtain ⟨holders,large,high⟩ := shield
  have most := (quorum_iff (inserted_distinct replies present)
    (inserted_ranks replies present)).mp many
  obtain ⟨q',holds,heard⟩ := intersect large most
  obtain ⟨stored,sent,listed⟩ := high q' holds
  obtain ⟨entry,member,named⟩ := List.mem_map.mp (mem_heardFrom.mp heard)
  refine ⟨entry,member,?_⟩
  rw [inserted replies present] at member
  rcases List.mem_cons.mp member with rfl | old
  · have same : q = q' := rankOf_inj.mp named
    exact sent v (same ▸ present)
  · exact listed entry old named

theorem imposed_above (replies : Replies s) (present : ⟨q,p,.value v⟩ ∈ s.flight)
    (many : n / 2 < (insertReply (s.list p) v.senderRank v.triple).length)
    (querying : s.phase p = .querying kind)
    (greatest : maxReply (insertReply (s.list p) v.senderRank v.triple) = some best)
    (chosen : w = imposedWrite (rankOf p) {noteReply (s.reg p) (s.list p) v with
      readval := best.2.2} v best) (shield : Shielded s p t) :
    t ≤ w.tag ∧ (kind = .write → t < w.tag) := by
  obtain ⟨entry,member,high⟩ := greatest_above replies present many shield
  have bound : t ≤ tripleTag best := high.trans (tripleTag_mono (maxReply_le greatest member))
  have flag := replies.reading p kind (by rw [querying]; rfl)
  cases kind with
  | read =>
    rw [chosen,(imposed_read _ (by simpa using flag) v best).1]
    exact ⟨bound,by simp⟩
  | write =>
    have less : tripleTag best < w.tag := by
      rw [chosen]
      exact (imposed_write _ (by simpa using flag) v best).1
    exact ⟨bound.trans less.le,fun _ => bound.trans_lt less⟩

-- The trace grows with an invocation, with a response, or not at all.
inductive Grows (s next : Cell n) : Prop where
  | same (kept : next.trace = s.trace) (open' : ∀ p kind w out,
      next.phase p = .done kind w out → s.phase p = .done kind w out)
      (fresh : ∀ p, next.phase p = .idle ↔ s.phase p = .idle)
  | invoked (p : Fin n) (kind : OpKind) (fresh : s.phase p = .idle)
      (begun : next.phase p = .querying kind) (list : next.list p = [])
      (others : ∀ p', p' ≠ p → next.phase p' = s.phase p')
      (kept : next.trace = s.trace ++ [.invoked p kind])
  | answered (p : Fin n) (kind : OpKind) (w : Option Write) (out : ℕ)
      (before : (s.phase p).kind? = some kind) (pending : ∀ w out, s.phase p ≠ .done kind w out)
      (finished : next.phase p = .done kind w out)
      (others : ∀ p', p' ≠ p → next.phase p' = s.phase p')
      (kept : next.trace = s.trace ++ [.answered p kind out])

theorem step_grows (step : Step guard s next) : Grows s next := by
  cases step with
  | @invoke p kind runId key fresh =>
    exact .invoked p kind fresh (by simp) (by simp)
      (fun p' other => Function.update_of_ne other _ _) rfl
  | drop _ => exact .same rfl (fun _ _ _ _ h => h) (fun _ => Iff.rfl)
  | read _ => exact .same rfl (fun _ _ _ _ h => h) (fun _ => Iff.rfl)
  | wait _ _ _ => exact .same rfl (fun _ _ _ _ h => h) (fun _ => Iff.rfl)
  | @answer p q v present checked many querying unanimous =>
    exact .answered p .read none _ (by rw [querying]; rfl) (by simp [querying]) (by simp)
      (fun p' other => Function.update_of_ne other _ _) rfl
  | @impose p q v kind best w present checked many querying split greatest chosen =>
    refine .same rfl ?_ ?_
    · intro p' kind' w' out known
      by_cases same : p' = p
      · subst same
        simp at known
      · simpa [same] using known
    · intro p'
      by_cases same : p' = p
      · subst same
        simp [querying]
      · simp [same]
  | write _ => exact .same rfl (fun _ _ _ _ h => h) (fun _ => Iff.rfl)
  | ack _ _ => exact .same rfl (fun _ _ _ _ h => h) (fun _ => Iff.rfl)
  | @complete p q a kind w present many imposing =>
    exact .answered p kind (some w) _ (by rw [imposing]; rfl) (by simp [imposing]) (by simp)
      (fun p' other => Function.update_of_ne other _ _) rfl


theorem initial_phase (p : Fin n) : (Cell.initial n).phase p = .idle := rfl

-- The trace and the phases tell the same story.
structure Traced (s : Cell n) : Prop where
  invoked : ∀ p kind, .invoked p kind ∈ s.trace ↔ (s.phase p).kind? = some kind
  answered : ∀ p kind out, .answered p kind out ∈ s.trace ↔ ∃ w, s.phase p = .done kind w out

theorem initial_traced : Traced (Cell.initial n) := by
  constructor <;> simp [Cell.initial,Phase.kind?]

theorem kind_step (step : Step guard s next) (started : s.phase p ≠ .idle) :
    (next.phase p).kind? = (s.phase p).kind? := by
  cases known : (s.phase p).kind? with
  | some kind => exact (step_advance step p).kept known
  | none => cases phase : s.phase p <;> simp_all [Phase.kind?]

theorem done_step (step : Step guard s next) (done : s.phase p = .done kind w out) :
    next.phase p = .done kind w out := by
  have advance := step_advance step p
  rw [done] at advance
  generalize next.phase p = after at advance ⊢
  cases advance
  rfl

theorem step_traced (valid : Traced s) (step : Step guard s next) : Traced next := by
  cases step_grows step with
  | same kept closed fresh =>
    refine ⟨fun p kind => ?_,fun p kind out => ?_⟩
    · rw [kept,valid.invoked]
      by_cases idle : s.phase p = .idle
      · rw [idle,(fresh p).mpr idle]
      · rw [kind_step step idle]
    · rw [kept,valid.answered]
      constructor
      · intro before
        obtain ⟨w,done⟩ := before
        exact ⟨w,done_step step done⟩
      · intro after
        obtain ⟨w,done⟩ := after
        exact ⟨w,closed p kind w out done⟩
  | invoked p kind fresh begun list others kept =>
    refine ⟨fun p' kind' => ?_,fun p' kind' out => ?_⟩
    · rw [kept,List.mem_append,valid.invoked]
      by_cases same : p' = p
      · subst same
        simp [fresh,begun,Phase.kind?,eq_comm]
      · simp [others p' same,same]
    · rw [kept,List.mem_append,valid.answered]
      by_cases same : p' = p
      · subst same
        simp [fresh,begun]
      · simp [others p' same]
  | answered p kind w out before pending finished others kept =>
    refine ⟨fun p' kind' => ?_,fun p' kind' out' => ?_⟩
    · rw [kept,List.mem_append,valid.invoked]
      by_cases same : p' = p
      · subst same
        rw [before,finished]
        simp [Phase.kind?]
      · simp [others p' same]
    · rw [kept,List.mem_append,valid.answered]
      by_cases same : p' = p
      · subst same
        simp only [finished,List.mem_singleton,Event.answered.injEq,true_and,Phase.done.injEq]
        constructor
        · rintro (⟨w',done⟩ | ⟨rfl,rfl⟩)
          · rw [done] at before
            cases before
            exact absurd done (pending w' out')
          · exact ⟨w,rfl,rfl,rfl⟩
        · rintro ⟨w',rfl,_,rfl⟩
          exact .inr ⟨rfl,rfl⟩
      · simp [others p' same,same]

theorem reached_traced (path : Reached guard n s) : Traced s := by
  induction path with
  | initial => exact initial_traced
  | step prior step ih => exact step_traced ih step

-- The response of `a` comes before the invocation of `b`.
def Precedes (s : Cell n) (a b : Fin n) : Prop :=
  ∃ kind out kind', [.answered a kind out,.invoked b kind'].Sublist s.trace

theorem Precedes.done (valid : Traced s) (precedes : Precedes s a b) :
    ∃ kind w out, s.phase a = .done kind w out := by
  obtain ⟨kind,out,kind',ordered⟩ := precedes
  obtain ⟨w,done⟩ := (valid.answered a kind out).mp (ordered.subset (by simp))
  exact ⟨kind,w,out,done⟩

theorem Precedes.started (valid : Traced s) (precedes : Precedes s a b) : s.phase b ≠ .idle := by
  obtain ⟨kind,out,kind',ordered⟩ := precedes
  have known := (valid.invoked b kind').mp (ordered.subset (by simp))
  rintro idle
  simp [idle,Phase.kind?] at known

theorem precedes_step (valid : Traced s) (step : Step guard s next) (precedes : Precedes next a b) :
    Precedes s a b ∨ s.phase b = .idle ∧ next.list b = [] ∧
      (∃ kind, next.phase b = .querying kind) ∧ ∃ kind w out, s.phase a = .done kind w out := by
  obtain ⟨kind,out,kind',ordered⟩ := precedes
  cases step_grows step with
  | same kept closed fresh => exact .inl ⟨kind,out,kind',kept ▸ ordered⟩
  | invoked p k fresh begun list others kept =>
    rw [kept,Histories.sublist_pair_snoc] at ordered
    rcases ordered with old | ⟨answered,new⟩
    · exact .inl ⟨kind,out,kind',old⟩
    · cases new
      obtain ⟨w,done⟩ := (valid.answered a kind out).mp answered
      exact .inr ⟨fresh,list,⟨kind',begun⟩,kind,w,out,done⟩
  | answered p k w o before pending finished others kept =>
    rw [kept,Histories.sublist_pair_snoc] at ordered
    rcases ordered with old | ⟨_,new⟩
    · exact .inl ⟨kind,out,kind',old⟩
    · cases new

-- An operation that must not end below `t`: it is shielded while it queries,
-- and what it broadcasts is above.
structure Above (s : Cell n) (p : Fin n) (t : Tag) : Prop where
  query : ∀ kind, s.phase p = .querying kind → Shielded s p t
  imposed : ∀ kind w, (s.phase p).kind? = some kind → (s.phase p).write? = some w →
    t ≤ w.tag ∧ (kind = .write → t < w.tag)

theorem begin_above (tokens : Tokens s) (step : Step guard s next) (fresh : s.phase p = .idle)
    (begun : next.list p = []) (querying : next.phase p = .querying kind)
    (covered : Covered s t) : Above next p t where
  query _ _ := begin_shielded tokens step fresh begun covered
  imposed _ _ _ written := by simp [querying,Phase.write?] at written

theorem step_above (replies : Replies s) (step : Step guard s next) (started : s.phase p ≠ .idle)
    (above : Above s p t) : Above next p t := by
  have kept (phase : next.phase p = s.phase p) : Above next p t :=
    ⟨fun kind querying => step_shielded replies step (above.query kind (phase ▸ querying)),
      fun kind w known written => above.imposed kind w (phase ▸ known) (phase ▸ written)⟩
  cases step_moves step p with
  | same reg list phase => exact kept phase
  | begin kind fresh reg list phase => exact absurd fresh started
  | wait q v present rest checked few reg list phase => exact kept phase
  | answer q v present rest checked many querying unanimous reg list phase =>
    exact ⟨by simp [phase],by simp [phase,Phase.write?]⟩
  | impose q v kind best w present rest checked many querying split greatest chosen reg list phase =>
    refine ⟨by simp [phase],fun kind' w' known written => ?_⟩
    rw [phase] at known written
    cases known
    cases written
    exact imposed_above replies present many querying greatest chosen (above.query kind querying)
  | store p' w present reg list phase => exact kept phase
  | ack q a present rest few reg list phase => exact kept phase
  | complete q a kind w present rest many imposing reg list phase =>
    refine ⟨by simp [phase],fun kind' w' known written => above.imposed kind' w' ?_ ?_⟩
    · simpa [phase,imposing,Phase.kind?] using known
    · simpa [phase,imposing,Phase.write?] using written

-- Real time is respected by the tags that are broadcast.
theorem reached_above (path : Reached guard n s) (precedes : Precedes s a b)
    (done : s.phase a = .done kind (some w) out) : Above s b w.tag := by
  induction path generalizing kind w out with
  | initial => simp [initial_phase] at done
  | @step before after prior step ih =>
    have traced := reached_traced prior
    rcases precedes_step traced step precedes with old | ⟨fresh,list,⟨k,querying⟩,k',w',out',first⟩
    · obtain ⟨k,w',out',first⟩ := old.done traced
      have same := (done_step step first).symm.trans done
      cases same
      exact step_above (reached_replies prior) step (old.started traced) (ih old first)
    · have same := (done_step step first).symm.trans done
      cases same
      exact begin_above (reached_tokens prior) step fresh list querying
        (done_covered (reached_acks prior) first)

-- Writers broadcast their own rank, with a timestamp above everything read.
structure Writers (s : Cell n) : Prop where
  writeval : ∀ p, (s.phase p).kind? = some .write → (s.reg p).writeval = rankOf p
  broadcast : ∀ p w, (s.phase p).kind? = some .write → (s.phase p).write? = some w →
    w.wr = rankOf p ∧ w.value = rankOf p ∧ 0 < w.ts

theorem initial_writers : Writers (Cell.initial n) := by
  constructor <;> simp [initial_phase,Phase.kind?]

@[simp] theorem store_writeval (reg : AtomicRegisterState) (w : Write) :
    (store reg w).writeval = reg.writeval := by
  unfold store; split <;> rfl

theorem writeval_step (valid : Writers s) (step : Step guard s next) (p : Fin n)
    (writing : (next.phase p).kind? = some .write) : (next.reg p).writeval = rankOf p := by
  cases step_moves step p with
  | same reg list phase => rw [reg]; exact valid.writeval p (phase ▸ writing)
  | begin kind fresh reg list phase =>
    rw [phase] at writing
    cases writing
    rw [reg]
    rfl
  | wait q v present rest checked few reg list phase =>
    rw [reg,noteReply_writeval]; exact valid.writeval p (phase ▸ writing)
  | answer q v present rest checked many querying unanimous reg list phase =>
    simp [phase,Phase.kind?] at writing
  | impose q v kind best w present rest checked many querying split greatest chosen reg list phase =>
    rw [phase] at writing
    cases writing
    rw [reg]
    exact (noteReply_writeval _ _ _).trans (valid.writeval p (by rw [querying]; rfl))
  | store p' w present reg list phase =>
    rw [reg,store_writeval]; exact valid.writeval p (phase ▸ writing)
  | ack q a present rest few reg list phase => rw [reg]; exact valid.writeval p (phase ▸ writing)
  | complete q a kind w present rest many imposing reg list phase =>
    rw [phase] at writing
    cases writing
    rw [reg]
    exact valid.writeval p (by rw [imposing]; rfl)

theorem broadcast_step (replies : Replies s) (valid : Writers s) (step : Step guard s next)
    (p : Fin n) (w : Write) (writing : (next.phase p).kind? = some .write)
    (written : (next.phase p).write? = some w) :
    w.wr = rankOf p ∧ w.value = rankOf p ∧ 0 < w.ts := by
  cases step_moves step p with
  | same reg list phase => exact valid.broadcast p w (phase ▸ writing) (phase ▸ written)
  | begin kind fresh reg list phase => simp [phase,Phase.write?] at written
  | wait q v present rest checked few reg list phase =>
    exact valid.broadcast p w (phase ▸ writing) (phase ▸ written)
  | answer q v present rest checked many querying unanimous reg list phase =>
    simp [phase,Phase.write?] at written
  | impose q v kind best w' present rest checked many querying split greatest chosen reg list phase =>
    rw [phase] at writing written
    cases writing
    cases written
    have flag := replies.reading p .write (by rw [querying]; rfl)
    have own := (noteReply_writeval (s.reg p) (s.list p) v).trans
      (valid.writeval p (by rw [querying]; rfl))
    have noted : {noteReply (s.reg p) (s.list p) v with readval := best.2.2}.reading = false := by
      simpa using flag
    obtain ⟨_,rank,value⟩ := imposed_write (rankOf p) noted v best
    rw [chosen]
    refine ⟨rank,value.trans own,?_⟩
    simp [imposedWrite,flag]
  | store p' w' present reg list phase =>
    exact valid.broadcast p w (phase ▸ writing) (phase ▸ written)
  | ack q a present rest few reg list phase =>
    exact valid.broadcast p w (phase ▸ writing) (phase ▸ written)
  | complete q a kind w' present rest many imposing reg list phase =>
    rw [phase] at writing written
    cases writing
    cases written
    exact valid.broadcast p w (by rw [imposing]; rfl) (by rw [imposing]; rfl)

theorem reached_writers (path : Reached guard n s) : Writers s := by
  induction path with
  | initial => exact initial_writers
  | step prior step ih =>
    exact ⟨writeval_step ih step,broadcast_step (reached_replies prior) ih step⟩

end KompicsBenches.RegisterOrder
