import KompicsBenches.RegisterValues

namespace KompicsBenches.RegisterLinear
open RegisterNode RegisterCell RegisterFootprint RegisterReplies RegisterAcks RegisterOrder
open RegisterValues Flight Quorum
variable {n : ℕ} {guard : Guard} {s next : Cell n}

-- The write of `value` has the tag `t`; 0 is the value of the initial tag.
def WroteTag (s : Cell n) (value : ℕ) (t : Tag) : Prop :=
  value = 0 ∧ t = toLex (0,0) ∨ ∃ p w, rankOf p = value ∧ (s.phase p).kind? = some .write ∧
    (s.phase p).write? = some w ∧ t = w.tag

theorem wroteTag_unique (left : WroteTag s value t) (right : WroteTag s value t') : t = t' := by
  rcases left with ⟨zero,rfl⟩ | ⟨p,w,rank,kind,written,rfl⟩ <;>
    rcases right with ⟨zero',rfl⟩ | ⟨p',w',rank',kind',written',rfl⟩
  · rfl
  · simp [← rank',rankOf] at zero
  · simp [← rank,rankOf] at zero'
  · have same : p = p' := rankOf_inj.mp (rank.trans rank'.symm)
    subst same
    rw [written] at written'
    cases written'
    rfl

theorem step_wroteTag (step : Step guard s next) (wrote : WroteTag s value t) :
    WroteTag next value t := by
  rcases wrote with start | ⟨p,w,rank,kind,written,rfl⟩
  · exact .inl start
  · exact .inr ⟨p,w,rank,(step_advance step p).kept kind,(step_advance step p).written written,rfl⟩

-- A holder of `t` has the value of `t`, or one of a later tag that is safe.
def Held (s : Cell n) (t : Tag) (value : ℕ) : Prop :=
  ∃ t', WroteTag s value t' ∧ t ≤ t' ∧ (t = t' ∨ Covered s t')

theorem step_held (step : Step guard s next) (held : Held s t value) : Held next t value := by
  obtain ⟨t',wrote,below,safe⟩ := held
  exact ⟨t',step_wroteTag step wrote,below,safe.imp_right (step_covered step)⟩

structure Values (s : Cell n) : Prop where
  stored : ∀ p, Held s (s.reg p).tag (s.reg p).value
  sent : ∀ q p v, ⟨q,p,.value v⟩ ∈ s.flight → Held s v.tag v.value
  listed : ∀ p, ∀ entry ∈ s.list p, Held s (tripleTag entry.2) entry.2.2.2
  written : ∀ p w, (s.phase p).write? = some w → Held s w.tag w.value
  returned : ∀ p w out, s.phase p = .done .read w out → ∃ t, WroteTag s out t ∧ Covered s t
  ended : ∀ p w out, s.phase p = .done .write w out → ∃ write, w = some write

theorem initial_values : Values (Cell.initial n) := by
  have held : Held (Cell.initial n) (toLex (0,0)) 0 := ⟨_,.inl ⟨rfl,rfl⟩,le_rfl,.inl rfl⟩
  refine ⟨fun _ => held,?_,?_,?_,?_,?_⟩ <;> simp [Cell.initial,Phase.write?]

-- On the fast path the replies agree on their tag.
theorem agreed (first : FirstReply s) (replies : Replies s)
    (present : ⟨q,p,.value v⟩ ∈ s.flight) (querying : s.phase p = .querying .read)
    (unanimous : (noteReply (s.reg p) (s.list p) v).skipImpose = true)
    (ranks : ∀ entry ∈ s.list p, entry.2.2.1 = v.wr) :
    ∀ entry ∈ insertReply (s.list p) v.senderRank v.triple, tripleTag entry.2 = v.tag := by
  obtain ⟨_,same⟩ := wait_firstReply replies first querying present
  have stamps := same unanimous
  have own : v.ts = (noteReply (s.reg p) (s.list p) v).firstReceivedTs :=
    stamps (v.senderRank,v.triple) (List.mem_cons_self ..)
  intro entry member
  have stamp : entry.2.1 = v.ts := (stamps entry member).trans own.symm
  have rank : entry.2.2.1 = v.wr := by
    rcases insertReply_mem member with old | rfl
    · exact ranks entry old
    · rfl
  simp only [tripleTag,stamp,rank,Value.tag]

-- What a fast read returns is the value of a safe tag, not below the replies.
theorem fast_value (first : FirstReply s) (replies : Replies s) (bounded : Bounded s)
    (valid : Values s) (present : ⟨q,p,.value v⟩ ∈ s.flight)
    (querying : s.phase p = .querying .read)
    (many : n / 2 < (insertReply (s.list p) v.senderRank v.triple).length)
    (unanimous : (noteReply (s.reg p) (s.list p) v).skipImpose = true)
    (ranks : ∀ entry ∈ s.list p, entry.2.2.1 = v.wr) :
    ∃ t, WroteTag s (noteReply (s.reg p) (s.list p) v).readval t ∧ v.tag ≤ t ∧ Covered s t := by
  have same := agreed first replies present querying unanimous ranks
  have safe : Covered s v.tag := agreed_covered replies bounded present many fun entry member =>
    same entry (by rw [inserted replies present]; exact List.mem_cons_of_mem _ member)
  obtain ⟨⟨entry,member,_,value⟩,_⟩ := wait_firstReply replies first querying present
  have held : Held s v.tag (noteReply (s.reg p) (s.list p) v).readval := by
    rw [← same entry member,← value]
    rcases insertReply_mem member with old | rfl
    · exact valid.listed p entry old
    · exact valid.sent q p v present
  obtain ⟨t,wrote,below,rest⟩ := held
  refine ⟨t,wrote,below,?_⟩
  rcases rest with rfl | covered
  · exact safe
  · exact covered

theorem fast_guard (replies : Replies s) (checked : linearGuard n (s.reg p) (s.list p) v imposing)
    (querying : s.phase p = .querying .read)
    (many : n / 2 < (insertReply (s.list p) v.senderRank v.triple).length)
    (unanimous : (noteReply (s.reg p) (s.list p) v).skipImpose = true) :
    (∀ entry ∈ s.list p, entry.2.2.1 = v.wr) ∧ ((s.reg p).tag ≤ v.tag ∨
      (noteReply (s.reg p) (s.list p) v).readval = (s.reg p).value) := by
  have reading : (s.reg p).reading = true := by
    simpa using replies.reading p .read (by rw [querying]; rfl)
  rw [noteReply_readval reading]
  exact checked.2 (by simp [fastQuorum,many,reading,unanimous])

theorem stored_values (first : FirstReply s) (replies : Replies s) (bounded : Bounded s)
    (acks : Acks s) (valid : Values s) (step : Step linearGuard s next) (p : Fin n) :
    Held next (next.reg p).tag (next.reg p).value := by
  refine step_held step ?_
  cases step_moves step p with
  | same reg list phase => rw [reg]; exact valid.stored p
  | begin kind fresh reg list phase =>
    rw [reg,beginOp_tag]
    cases kind <;> exact valid.stored p
  | wait q v present rest checked few reg list phase => simpa [reg] using valid.stored p
  | answer q v present rest checked many querying unanimous reg list phase =>
    obtain ⟨ranks,fits⟩ := fast_guard replies checked querying many unanimous
    obtain ⟨t,wrote,below,safe⟩ :=
      fast_value first replies bounded valid present querying many unanimous ranks
    rw [reg]
    change Held s (noteReply (s.reg p) (s.list p) v).tag _
    rw [noteReply_tag]
    rcases fits with low | same
    · exact ⟨t,wrote,low.trans below,.inr safe⟩
    · rw [same]
      exact valid.stored p
  | impose q v kind best w present rest checked many querying split greatest chosen reg list phase =>
    rw [reg]
    change Held s (noteReply (s.reg p) (s.list p) v).tag (noteReply (s.reg p) (s.list p) v).value
    rw [noteReply_tag,noteReply_value]
    exact valid.stored p
  | store p' w present reg list phase =>
    rw [reg]
    unfold store
    split
    · exact valid.written p' w (acks.content p' p w present)
    · exact valid.stored p
  | ack q a present rest few reg list phase => rw [reg]; exact valid.stored p
  | complete q a kind w present rest many imposing reg list phase => rw [reg]; exact valid.stored p

theorem written_values (replies : Replies s) (writers : Writers next) (valid : Values s)
    (step : Step guard s next) (p : Fin n) (w : Write) (written : (next.phase p).write? = some w) :
    Held next w.tag w.value := by
  cases step_moves step p with
  | same reg list phase => exact step_held step (valid.written p w (phase ▸ written))
  | begin kind fresh reg list phase => simp [phase,Phase.write?] at written
  | wait q v present rest checked few reg list phase =>
    exact step_held step (valid.written p w (phase ▸ written))
  | answer q v present rest checked many querying unanimous reg list phase =>
    simp [phase,Phase.write?] at written
  | impose q v kind best w' present rest checked many querying split greatest chosen reg list phase =>
    cases kind with
    | write =>
      have writing : (next.phase p).kind? = some .write := by rw [phase]; rfl
      obtain ⟨_,value,_⟩ := writers.broadcast p w writing written
      exact ⟨w.tag,.inr ⟨p,w,value.symm,writing,written,rfl⟩,le_rfl,.inl rfl⟩
    | read =>
      rw [phase] at written
      cases written
      have reading := replies.reading p .read (by rw [querying]; rfl)
      have noted : {noteReply (s.reg p) (s.list p) v with readval := best.2.2}.reading = true := by
        simpa using reading
      obtain ⟨tag,value⟩ := imposed_read (rankOf p) noted v best
      rw [chosen,tag,value]
      obtain ⟨entry,member,rfl⟩ := maxReply_mem greatest
      refine step_held step ?_
      rcases insertReply_mem member with old | rfl
      · exact valid.listed p entry old
      · exact valid.sent q p v present
  | store p' w' present reg list phase =>
    exact step_held step (valid.written p w (phase ▸ written))
  | ack q a present rest few reg list phase =>
    exact step_held step (valid.written p w (phase ▸ written))
  | complete q a kind w' present rest many imposing reg list phase =>
    rw [phase] at written
    cases written
    exact step_held step (valid.written p w (by rw [imposing]; rfl))

theorem late_of_linear : ∀ n reg list v imposing, linearGuard n reg list v imposing →
    lateGuard n reg list v imposing :=
  fun _ _ _ _ _ checked => checked.1

-- What a read that completes on its acknowledgements returns.
theorem completed_value (imposed : Imposed s) (valid : Values s)
    (imposing : s.phase p = .imposing .read w) :
    ∃ t, WroteTag s (s.reg p).readval t ∧ w.tag ≤ t ∧ (w.tag = t ∨ Covered s t) := by
  rw [imposed.readval p w imposing]
  exact valid.written p w (by rw [imposing]; rfl)

theorem returned_values (first : FirstReply s) (replies : Replies s) (bounded : Bounded s)
    (imposed : Imposed s) (acks : Acks next) (valid : Values s) (step : Step linearGuard s next)
    (p : Fin n) (w : Option Write) (out : ℕ) (done : next.phase p = .done .read w out) :
    ∃ t, WroteTag next out t ∧ Covered next t := by
  cases step_readEnd step done with
  | before earlier =>
    obtain ⟨t,wrote,safe⟩ := valid.returned p w out earlier
    exact ⟨t,step_wroteTag step wrote,step_covered step safe⟩
  | answer q v present checked many querying unanimous =>
    obtain ⟨ranks,_⟩ := fast_guard replies checked querying many unanimous
    obtain ⟨t,wrote,_,safe⟩ :=
      fast_value first replies bounded valid present querying many unanimous ranks
    exact ⟨t,step_wroteTag step wrote,step_covered step safe⟩
  | complete w' imposing =>
    obtain ⟨t,wrote,_,safe⟩ := completed_value imposed valid imposing
    refine ⟨t,step_wroteTag step wrote,?_⟩
    rcases safe with rfl | covered
    · exact done_covered acks done
    · exact step_covered step covered

theorem ended_values (valid : Values s) (step : Step guard s next) (p : Fin n) (w : Option Write)
    (out : ℕ) (done : next.phase p = .done .write w out) : ∃ write, w = some write := by
  have advance := step_advance step p
  rw [done] at advance
  generalize before : s.phase p = phase at advance
  cases advance with
  | same => exact valid.ended p w out before
  | complete => exact ⟨_,rfl⟩

theorem reached_values (path : Reached linearGuard n s) : Values s := by
  induction path with
  | initial => exact initial_values
  | @step before after prior step ih =>
    have first := reached_firstReply prior
    have replies := reached_replies prior
    have bounded := reached_bounded prior
    refine ⟨stored_values first replies bounded (reached_acks prior) ih step,?_,?_,
      written_values replies (reached_writers (prior.step step)) ih step,
      returned_values first replies bounded (reached_imposed late_of_linear prior)
        (reached_acks (prior.step step)) ih step,ended_values ih step⟩
    · intro q p v present
      refine step_held step ?_
      cases packet_origin step present with
      | old before => exact ih.sent q p v before
      | value asked => exact ih.stored q
    · intro p entry member
      refine step_held step ?_
      cases entry_origin step member with
      | old before => exact ih.listed p entry before
      | new present rest => exact ih.sent _ p _ present

-- The tag an operation takes effect at: the one it broadcast for a write, the
-- one of the value it returned for a read.
def OpTag (s : Cell n) (p : Fin n) (t : Tag) : Prop :=
  (∃ w, (s.phase p).kind? = some .write ∧ (s.phase p).write? = some w ∧ t = w.tag) ∨
    ∃ w out, s.phase p = .done .read w out ∧ WroteTag s out t

theorem opTag_unique (left : OpTag s p t) (right : OpTag s p t') : t = t' := by
  rcases left with ⟨w,kind,written,rfl⟩ | ⟨w,out,done,wrote⟩ <;>
    rcases right with ⟨w',kind',written',rfl⟩ | ⟨w',out',done',wrote'⟩
  · rw [written] at written'
    cases written'
    rfl
  · rw [done'] at kind
    cases kind
  · rw [done] at kind'
    cases kind'
  · rw [done] at done'
    cases done'
    exact wroteTag_unique wrote wrote'

theorem step_opTag (step : Step guard s next) (tagged : OpTag s p t) : OpTag next p t := by
  rcases tagged with ⟨w,kind,written,rfl⟩ | ⟨w,out,done,wrote⟩
  · exact .inl ⟨w,(step_advance step p).kept kind,(step_advance step p).written written,rfl⟩
  · exact .inr ⟨w,out,done_step step done,step_wroteTag step wrote⟩

theorem done_opTag (acks : Acks s) (valid : Values s) (done : s.phase p = .done kind w out) :
    ∃ t, OpTag s p t ∧ Covered s t := by
  cases kind with
  | read =>
    obtain ⟨t,wrote,safe⟩ := valid.returned p w out done
    exact ⟨t,.inr ⟨w,out,done,wrote⟩,safe⟩
  | write =>
    obtain ⟨write,rfl⟩ := valid.ended p w out done
    refine ⟨write.tag,.inl ⟨write,by rw [done]; rfl,by rw [done]; rfl,rfl⟩,done_covered acks done⟩

-- An operation that starts after `t` is safe takes effect at `t` or later.
structure After (s : Cell n) (p : Fin n) (t : Tag) : Prop where
  above : Above s p t
  returned : ∀ w out, s.phase p = .done .read w out → ∃ t', WroteTag s out t' ∧ t ≤ t'

theorem step_after (first : FirstReply s) (replies : Replies s) (bounded : Bounded s)
    (imposed : Imposed s) (valid : Values s) (step : Step linearGuard s next)
    (started : s.phase p ≠ .idle) (after : After s p t) : After next p t where
  above := step_above replies step started after.above
  returned w out done := by
    cases step_readEnd step done with
    | before earlier =>
      obtain ⟨t',wrote,below⟩ := after.returned w out earlier
      exact ⟨t',step_wroteTag step wrote,below⟩
    | answer q v present checked many querying unanimous =>
      obtain ⟨ranks,_⟩ := fast_guard replies checked querying many unanimous
      obtain ⟨t',wrote,below,_⟩ :=
        fast_value first replies bounded valid present querying many unanimous ranks
      obtain ⟨entry,member,high⟩ :=
        greatest_above replies present many (after.above.query .read querying)
      rw [agreed first replies present querying unanimous ranks entry member] at high
      exact ⟨t',step_wroteTag step wrote,high.trans below⟩
    | complete w' imposing =>
      obtain ⟨t',wrote,below,_⟩ := completed_value imposed valid imposing
      have high := (after.above.imposed .read w' (by rw [imposing]; rfl) (by rw [imposing]; rfl)).1
      exact ⟨t',step_wroteTag step wrote,high.trans below⟩

theorem begin_after (tokens : Tokens s) (step : Step guard s next) (fresh : s.phase p = .idle)
    (begun : next.list p = []) (querying : next.phase p = .querying kind)
    (covered : Covered s t) : After next p t :=
  ⟨begin_above tokens step fresh begun querying covered,by simp [querying]⟩

theorem reached_after (path : Reached linearGuard n s) (precedes : Precedes s a b)
    (tagged : OpTag s a t) : After s b t := by
  induction path with
  | initial =>
    obtain ⟨kind,out,kind',ordered⟩ := precedes
    cases ordered
  | @step before after prior step ih =>
    have traced := reached_traced prior
    have valid := reached_values prior
    have acks := reached_acks prior
    rcases precedes_step traced step precedes with old | ⟨fresh,list,⟨k,querying⟩,k',w',out',first⟩
    · obtain ⟨k,w',out',first⟩ := old.done traced
      obtain ⟨t',earlier,_⟩ := done_opTag acks valid first
      have same := opTag_unique (step_opTag step earlier) tagged
      exact step_after (reached_firstReply prior) (reached_replies prior) (reached_bounded prior)
        (reached_imposed late_of_linear prior) valid step (old.started traced) (ih old (same ▸ earlier))
    · obtain ⟨t',earlier,safe⟩ := done_opTag acks valid first
      have same := opTag_unique (step_opTag step earlier) tagged
      exact begin_after (reached_tokens prior) step fresh list querying (same ▸ safe)

theorem After.le (after : After s b t) (tagged : OpTag s b t') :
    t ≤ t' ∧ ((s.phase b).kind? = some .write → t < t') := by
  rcases tagged with ⟨w,kind,written,rfl⟩ | ⟨w,out,done,wrote⟩
  · obtain ⟨below,strict⟩ := after.above.imposed .write w kind written
    exact ⟨below,fun _ => strict rfl⟩
  · obtain ⟨t'',wrote',below⟩ := after.returned w out done
    rw [wroteTag_unique wrote wrote']
    refine ⟨below,?_⟩
    rw [done]
    simp [Phase.kind?]

def opFor (p : Fin n) : OpKind → Histories.Op ℕ
  | .read => .read
  | .write => .write (rankOf p)

def outFor : OpKind → ℕ → Option ℕ
  | .read,out => some out
  | .write,_ => none

def toHistory : Event n → Histories.Event (Fin n) ℕ
  | .invoked p kind => .inv p (opFor p kind)
  | .answered p kind out => .res p (outFor kind out)

def history (s : Cell n) : Histories.History (Fin n) ℕ := s.trace.map toHistory

theorem inv_mem : .inv p op ∈ history s ↔ ∃ kind, .invoked p kind ∈ s.trace ∧ op = opFor p kind := by
  constructor
  · intro member
    obtain ⟨event,inside,same⟩ := List.mem_map.mp member
    cases event with
    | invoked p' kind =>
      cases same
      exact ⟨kind,inside,rfl⟩
    | answered p' kind out => cases same
  · rintro ⟨kind,inside,rfl⟩
    exact List.mem_map.mpr ⟨_,inside,rfl⟩

theorem res_mem : .res p result ∈ history s ↔
    ∃ kind out, .answered p kind out ∈ s.trace ∧ result = outFor kind out := by
  constructor
  · intro member
    obtain ⟨event,inside,same⟩ := List.mem_map.mp member
    cases event with
    | invoked p' kind => cases same
    | answered p' kind out =>
      cases same
      exact ⟨kind,out,inside,rfl⟩
  · rintro ⟨kind,out,inside,rfl⟩
    exact List.mem_map.mpr ⟨_,inside,rfl⟩

theorem history_precedes (ordered : [.res a result,.inv b op].Sublist (history s)) :
    Precedes s a b ∧ ∃ kind, .invoked b kind ∈ s.trace ∧ op = opFor b kind := by
  obtain ⟨part,inside,same⟩ := List.sublist_map_iff.mp ordered
  have size : part.length = 2 := by simpa using (congrArg List.length same).symm
  obtain ⟨first,second,rfl⟩ := List.length_eq_two.mp size
  simp only [List.map_cons,List.map_nil,List.cons.injEq,and_true] at same
  obtain ⟨left,right⟩ := same
  cases first with
  | invoked p kind => cases left
  | answered p kind out =>
    cases second with
    | answered p' kind' out' => cases right
    | invoked p' kind' =>
      cases left
      cases right
      exact ⟨⟨kind,out,kind',inside⟩,kind',inside.subset (by simp),rfl⟩

theorem reached_wellFormed (path : Reached guard n s) : Histories.WellFormed (history s) := by
  induction path with
  | initial => exact Histories.wellFormed_nil
  | @step before after prior step ih =>
    have traced := reached_traced prior
    cases step_grows step with
    | same kept closed fresh =>
      unfold history
      rw [kept]
      exact ih
    | invoked p kind fresh begun list others kept =>
      unfold history
      rw [kept,List.map_append]
      refine ih.snoc_inv (fun op member => ?_) (opFor p kind)
      obtain ⟨kind',inside,_⟩ := inv_mem.mp member
      have known := (traced.invoked p kind').mp inside
      simp [fresh,Phase.kind?] at known
    | answered p kind w out known pending finished others kept =>
      unfold history
      rw [kept,List.map_append]
      exact ih.snoc_res (inv_mem.mpr ⟨kind,(traced.invoked p kind).mpr known,rfl⟩) (outFor kind out)

open Classical in
noncomputable def tagOf (s : Cell n) (p : Fin n) : Tag :=
  if known : ∃ t, OpTag s p t then known.choose else toLex (0,0)

open Classical in
noncomputable def effective (s : Cell n) : List (Fin n) :=
  (List.finRange n).filter fun p => ∃ t, OpTag s p t

theorem mem_effective : p ∈ effective s ↔ ∃ t, OpTag s p t := by
  simp [effective]

theorem tagOf_eq (tagged : OpTag s p t) : tagOf s p = t := by
  have known : ∃ t, OpTag s p t := ⟨t,tagged⟩
  rw [tagOf,dif_pos known]
  exact opTag_unique known.choose_spec tagged

theorem opTag_kind (tagged : OpTag s p t) : ∃ kind, (s.phase p).kind? = some kind := by
  rcases tagged with ⟨w,kind,_⟩ | ⟨w,out,done,_⟩
  · exact ⟨.write,kind⟩
  · exact ⟨.read,by rw [done]; rfl⟩

-- An effective write of the history is a write operation with its broadcast.
theorem effective_write (path : Reached guard n s) (inside : p ∈ effective s)
    (writes : Histories.isWrite (history s) p = true) :
    ∃ w, (s.phase p).kind? = some .write ∧ (s.phase p).write? = some w ∧ tagOf s p = w.tag := by
  obtain ⟨value,found⟩ := Histories.isWrite_iff.mp writes
  obtain ⟨kind,invoked,same⟩ := inv_mem.mp (Histories.opOf_mem found)
  have known := ((reached_traced path).invoked p kind).mp invoked
  cases kind with
  | read => cases same
  | write =>
    obtain ⟨t,tagged⟩ := mem_effective.mp inside
    rcases id tagged with ⟨w,_,written,rfl⟩ | ⟨w,out,done,_⟩
    · exact ⟨w,known,written,tagOf_eq tagged⟩
    · rw [done] at known
      cases known

theorem reached_tagged (path : Reached linearGuard n s) :
    Histories.Tagged 0 (toLex (0,0)) (history s) (tagOf s) (effective s) where
  nodup := (List.nodup_finRange n).filter _
  answered p result member := by
    obtain ⟨kind,out,inside,_⟩ := res_mem.mp member
    obtain ⟨w,done⟩ := ((reached_traced path).answered p kind out).mp inside
    obtain ⟨t,tagged,_⟩ := done_opTag (reached_acks path) (reached_values path) done
    exact mem_effective.mpr ⟨t,tagged⟩
  invoked p inside := by
    obtain ⟨t,tagged⟩ := mem_effective.mp inside
    obtain ⟨kind,known⟩ := opTag_kind tagged
    exact ⟨_,inv_mem.mpr ⟨kind,((reached_traced path).invoked p kind).mpr known,rfl⟩⟩
  realtime a first b second result op ordered := by
    obtain ⟨precedes,kind,invoked,rfl⟩ := history_precedes ordered
    obtain ⟨t,tagged⟩ := mem_effective.mp first
    obtain ⟨t',tagged'⟩ := mem_effective.mp second
    rw [tagOf_eq tagged,tagOf_eq tagged']
    obtain ⟨below,strict⟩ := (reached_after path precedes tagged).le tagged'
    refine ⟨below,fun other => strict ?_⟩
    rw [((reached_traced path).invoked b kind).mp invoked]
    cases kind with
    | read => exact absurd rfl other
    | write => rfl
  apart p first p' second writes writes' same := by
    obtain ⟨w,kind,written,tag⟩ := effective_write path first writes
    obtain ⟨w',kind',written',tag'⟩ := effective_write path second writes'
    have equal : w.tag = w'.tag := tag.symm.trans (same.trans tag')
    have ranks : w.wr = w'.wr := congrArg (fun t => (ofLex t).2) equal
    rw [((reached_writers path).broadcast p w kind written).1,
      ((reached_writers path).broadcast p' w' kind' written').1] at ranks
    exact rankOf_inj.mp ranks
  above p inside writes := by
    obtain ⟨w,kind,written,tag⟩ := effective_write path inside writes
    rw [tag]
    exact Prod.Lex.toLex_lt_toLex.mpr
      (.inl ((reached_writers path).broadcast p w kind written).2.2)
  source p value reads returns := by
    obtain ⟨kind,invoked,same⟩ := inv_mem.mp reads
    obtain ⟨kind',out,answered,result⟩ := res_mem.mp returns
    obtain ⟨w,done⟩ := ((reached_traced path).answered p kind' out).mp answered
    have known := ((reached_traced path).invoked p kind).mp invoked
    rw [done] at known
    cases known
    cases kind with
    | write => cases result
    | read =>
      cases result
      obtain ⟨t,wrote,_⟩ := (reached_values path).returned p w value done
      have tag := tagOf_eq (.inr ⟨w,value,done,wrote⟩ : OpTag s p t)
      rcases wrote with ⟨rfl,rfl⟩ | ⟨p',w',rank,kind,written,rfl⟩
      · exact .inl ⟨tag,rfl⟩
      · have own : OpTag s p' w'.tag := .inl ⟨w',kind,written,rfl⟩
        refine .inr ⟨p',mem_effective.mpr ⟨_,own⟩,?_,by rw [tag,tagOf_eq own]⟩
        refine Histories.opOf_eq _ (reached_wellFormed path) (inv_mem.mpr ⟨.write,?_,?_⟩)
        · exact ((reached_traced path).invoked p' .write).mpr kind
        · simp [opFor,rank]

theorem reached_linearizable (path : Reached linearGuard n s) :
    Histories.Linearizable 0 (history s) :=
  Histories.linearizable_of_tags (reached_wellFormed path) (reached_tagged path)

end KompicsBenches.RegisterLinear
