import KompicsBenches.RegisterCell

namespace KompicsBenches.RegisterFootprint
open RegisterNode RegisterCell Flight Quorum
variable {n : ℕ} {guard : Guard} {s next : Cell n}

section Note
variable (reg : AtomicRegisterState) (list : Readlist) (v : Value)

@[simp] theorem noteReply_reading : (noteReply reg list v).reading = reg.reading := by
  unfold noteReply; split <;> [split <;> [rfl; (split <;> rfl)]; rfl]

@[simp] theorem noteReply_tag : (noteReply reg list v).tag = reg.tag := by
  unfold noteReply; split <;> [split <;> [rfl; (split <;> rfl)]; rfl]

@[simp] theorem noteReply_acks : (noteReply reg list v).acks = reg.acks := by
  unfold noteReply; split <;> [split <;> [rfl; (split <;> rfl)]; rfl]

@[simp] theorem noteReply_wr : (noteReply reg list v).wr = reg.wr := by
  unfold noteReply; split <;> [split <;> [rfl; (split <;> rfl)]; rfl]

@[simp] theorem noteReply_value : (noteReply reg list v).value = reg.value := by
  unfold noteReply; split <;> [split <;> [rfl; (split <;> rfl)]; rfl]

@[simp] theorem noteReply_writeval : (noteReply reg list v).writeval = reg.writeval := by
  unfold noteReply; split <;> [split <;> [rfl; (split <;> rfl)]; rfl]

end Note

@[simp] theorem beginOp_reading (kind : OpKind) (rank : ℕ) (reg : AtomicRegisterState) :
    (beginOp kind rank reg).reading = decide (kind = .read) := by
  cases kind <;> rfl

@[simp] theorem beginOp_tag (kind : OpKind) (rank : ℕ) (reg : AtomicRegisterState) :
    (beginOp kind rank reg).tag = reg.tag := by
  cases kind <;> rfl

@[simp] theorem beginOp_acks (kind : OpKind) (rank : ℕ) (reg : AtomicRegisterState) :
    (beginOp kind rank reg).acks = 0 := by
  cases kind <;> rfl

@[simp] theorem store_reading (reg : AtomicRegisterState) (w : Write) :
    (store reg w).reading = reg.reading := by
  unfold store; split <;> rfl

@[simp] theorem store_acks (reg : AtomicRegisterState) (w : Write) :
    (store reg w).acks = reg.acks := by
  unfold store; split <;> rfl

theorem store_tag (reg : AtomicRegisterState) (w : Write) :
    (store reg w).tag = max reg.tag w.tag := by
  unfold store
  split
  · rename_i newer
    exact (max_eq_right newer.le).symm
  · rename_i older
    exact (max_eq_left (not_lt.mp older)).symm

-- What a step can do to each part of a cell. Every invariant below is read off
-- from these facts and not from the steps themselves.

theorem query_kept (tokens : Tokens s) (step : Step guard s next) (started : s.phase p ≠ .idle)
    (absent : (false,p,q) ∉ outstanding token s.flight) :
    (false,p,q) ∉ outstanding token next.flight := by
  have gone {x : Packet n} (present : x ∈ s.flight) :
      (false,p,q) ∉ outstanding token (s.flight.erase x) := fun member =>
    absent ((mem_consumed tokens.nodup present).mp member).2
  have kept {x y : Packet n} (present : x ∈ s.flight) (same : token y = token x) :
      (false,p,q) ∉ outstanding token (s.flight.erase x + {y}) := by
    rwa [replied present same]
  cases step with
  | @invoke p' kind runId key fresh =>
    have other : p' ≠ p := by
      rintro rfl
      exact started fresh
    simp [outstanding_add,open_reads,absent,other]
  | drop present => exact gone present
  | read present => exact kept present rfl
  | wait present checked few => exact gone present
  | answer present checked many querying unanimous => exact gone present
  | impose present checked many querying split greatest chosen =>
    simp [outstanding_add,open_writes,gone present]
  | write present => exact kept present rfl
  | ack present few => exact gone present
  | complete present many imposing => exact gone present

theorem impose_kept (tokens : Tokens s) (step : Step guard s next)
    (written : (s.phase p).write?.isSome = true)
    (absent : (true,p,q) ∉ outstanding token s.flight) :
    (true,p,q) ∉ outstanding token next.flight := by
  have gone {x : Packet n} (present : x ∈ s.flight) :
      (true,p,q) ∉ outstanding token (s.flight.erase x) := fun member =>
    absent ((mem_consumed tokens.nodup present).mp member).2
  have kept {x y : Packet n} (present : x ∈ s.flight) (same : token y = token x) :
      (true,p,q) ∉ outstanding token (s.flight.erase x + {y}) := by
    rwa [replied present same]
  cases step with
  | invoke kind runId key fresh => simp [outstanding_add,open_reads,absent]
  | drop present => exact gone present
  | read present => exact kept present rfl
  | wait present checked few => exact gone present
  | answer present checked many querying unanimous => exact gone present
  | @impose p' q' v kind best w present checked many querying split greatest chosen =>
    have other : p' ≠ p := by
      rintro rfl
      simp [querying,Phase.write?] at written
    simp [outstanding_add,open_writes,gone present,other]
  | write present => exact kept present rfl
  | ack present few => exact gone present
  | complete present many imposing => exact gone present

-- Where a packet in flight comes from.
inductive Origin (s next : Cell n) : Packet n → Prop where
  | old : x ∈ s.flight → Origin s next x
  | read : s.phase p = .idle → Origin s next ⟨p,q,.read r⟩
  | value : ⟨p,q,.read r⟩ ∈ s.flight →
      Origin s next ⟨q,p,.value (replyTo (rankOf q) (s.reg q) r)⟩
  | write : s.phase p = .querying kind → next.phase p = .imposing kind w →
      Origin s next ⟨p,q,.write w⟩
  | ack : ⟨p,q,.write w⟩ ∈ s.flight → next.reg q = store (s.reg q) w → Origin s next ⟨q,p,.ack a⟩

theorem packet_origin (step : Step guard s next) (present : x ∈ next.flight) :
    Origin s next x := by
  cases step with
  | invoke kind runId key fresh =>
    rcases Multiset.mem_add.mp present with old | new
    · exact .old old
    · obtain ⟨q,rfl⟩ := mem_packets.mp new
      exact .read fresh
  | drop _ => exact .old (Multiset.mem_of_mem_erase present)
  | read asked =>
    rcases Multiset.mem_add.mp present with old | new
    · exact .old (Multiset.mem_of_mem_erase old)
    · cases Multiset.mem_singleton.mp new
      exact .value asked
  | wait _ _ _ => exact .old (Multiset.mem_of_mem_erase present)
  | answer _ _ _ _ _ => exact .old (Multiset.mem_of_mem_erase present)
  | impose _ _ _ querying _ _ _ =>
    rcases Multiset.mem_add.mp present with old | new
    · exact .old (Multiset.mem_of_mem_erase old)
    · obtain ⟨q,rfl⟩ := mem_packets.mp new
      exact .write querying (by simp)
  | write sent =>
    rcases Multiset.mem_add.mp present with old | new
    · exact .old (Multiset.mem_of_mem_erase old)
    · cases Multiset.mem_singleton.mp new
      exact .ack sent (by simp)
  | ack _ _ => exact .old (Multiset.mem_of_mem_erase present)
  | complete _ _ _ => exact .old (Multiset.mem_of_mem_erase present)

-- An entry of a readlist was there before or is the reply just handled.
inductive Entered (s next : Cell n) (p : Fin n) : ℕ × Triple → Prop where
  | old : entry ∈ s.list p → Entered s next p entry
  | new : ⟨q,p,.value v⟩ ∈ s.flight → next.flight = s.flight.erase ⟨q,p,.value v⟩ →
      Entered s next p (v.senderRank,v.triple)

theorem insertReply_mem {list : Readlist} (member : entry ∈ insertReply list rank reply) :
    entry ∈ list ∨ entry = (rank,reply) := by
  rcases List.mem_cons.mp member with new | old
  · exact .inr new
  · exact .inl (List.mem_of_mem_filter old)

theorem entry_origin (step : Step guard s next) (member : entry ∈ next.list p) :
    Entered s next p entry := by
  cases step_moves step p with
  | same reg list phase => exact .old (list ▸ member)
  | begin kind fresh reg list phase => simp [list] at member
  | wait q v present rest checked few reg list phase =>
    rw [list] at member
    rcases insertReply_mem member with old | rfl
    · exact .old old
    · exact .new present rest
  | answer q v present rest checked many querying unanimous reg list phase => simp [list] at member
  | impose q v kind best w present rest checked many querying split greatest chosen reg list phase =>
    simp [list] at member
  | store p' w present reg list phase => exact .old (list ▸ member)
  | ack q a present rest few reg list phase => exact .old (list ▸ member)
  | complete q a kind w present rest many imposing reg list phase => exact .old (list ▸ member)

theorem step_tag (step : Step guard s next) (p : Fin n) : (s.reg p).tag ≤ (next.reg p).tag := by
  cases step_moves step p with
  | same reg list phase => rw [reg]
  | begin kind fresh reg list phase => simp [reg]
  | wait q v present rest checked few reg list phase => simp [reg]
  | answer q v present rest checked many querying unanimous reg list phase =>
    rw [reg]
    exact (noteReply_tag _ _ _).ge
  | impose q v kind best w present rest checked many querying split greatest chosen reg list phase =>
    rw [reg]
    exact (noteReply_tag _ _ _).ge
  | store p' w present reg list phase => simp [reg,store_tag]
  | ack q a present rest few reg list phase => rw [reg]; rfl
  | complete q a kind w present rest many imposing reg list phase => rw [reg]; rfl

end KompicsBenches.RegisterFootprint
