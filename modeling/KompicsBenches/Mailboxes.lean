import Mathlib.Data.List.Basic
import Mathlib.Logic.Function.Basic

namespace KompicsBenches

-- The mailbox of one process and what is on its way to it. Signals of one sender
-- arrive in the order sent; those of different senders in any order.
structure Inbox (π σ : Type*) where
  mailbox : List σ
  channel : π → List σ

namespace Inbox
variable {π σ : Type*} [DecidableEq π]

def empty : Inbox π σ := ⟨[],fun _ => []⟩

section Operations
variable (sender : σ → π)

def send (inbox : Inbox π σ) (signals : List σ) : Inbox π σ :=
  { inbox with channel := fun pid => inbox.channel pid ++ signals.filter (sender · = pid) }

def deliver (inbox : Inbox π σ) (pid : π) : Option (Inbox π σ) :=
  match inbox.channel pid with
  | [] => none
  | signal :: rest => some ⟨inbox.mailbox ++ [signal],Function.update inbox.channel pid rest⟩

def take [DecidableEq σ] (inbox : Inbox π σ) (signal : σ) : Inbox π σ :=
  { inbox with mailbox := inbox.mailbox.erase signal }

-- What a process has sent and the receiver has not taken, in order.
def pending (inbox : Inbox π σ) (pid : π) : List σ :=
  inbox.mailbox.filter (sender · = pid) ++ inbox.channel pid

-- A channel holds the signals of its own process only.
def Addressed (inbox : Inbox π σ) : Prop := ∀ pid, ∀ signal ∈ inbox.channel pid, sender signal = pid

end Operations

variable {sender : σ → π} {inbox next : Inbox π σ} {pid : π} {signal : σ} {signals : List σ}

omit [DecidableEq π] in
theorem addressed_empty : (empty : Inbox π σ).Addressed sender := by
  intro pid signal member
  cases member

theorem Addressed.send (addressed : inbox.Addressed sender) : (inbox.send sender signals).Addressed sender := by
  intro pid signal member
  rcases List.mem_append.mp member with old | new
  · exact addressed pid signal old
  · exact of_decide_eq_true (List.mem_filter.mp new).2

theorem deliver_inv (done : inbox.deliver pid = some next) :
    ∃ signal rest, inbox.channel pid = signal :: rest ∧
      next = ⟨inbox.mailbox ++ [signal],Function.update inbox.channel pid rest⟩ := by
  unfold deliver at done
  split at done
  · cases done
  · rename_i signal rest here
    exact ⟨signal,rest,here,(Option.some.inj done).symm⟩

theorem deliver_channel_subset (done : inbox.deliver pid = some next) (other : π) :
    next.channel other ⊆ inbox.channel other := by
  obtain ⟨signal,rest,here,rfl⟩ := deliver_inv done
  by_cases same : other = pid
  · subst same
    simp only [Function.update_self,here]
    exact List.subset_cons_self signal rest
  · simp only [Function.update_of_ne same]
    exact List.Subset.refl _

theorem Addressed.deliver (addressed : inbox.Addressed sender) (done : inbox.deliver pid = some next) :
    next.Addressed sender :=
  fun other signal member => addressed other signal (deliver_channel_subset done other member)

omit [DecidableEq π] in
theorem Addressed.take [DecidableEq σ] (addressed : inbox.Addressed sender) : (inbox.take signal).Addressed sender :=
  addressed

theorem pending_send (pid : π) :
    (inbox.send sender signals).pending sender pid = inbox.pending sender pid ++ signals.filter (sender · = pid) :=
  (List.append_assoc _ _ _).symm

-- Arrival moves a signal along, and no sender's order changes.
theorem pending_deliver (addressed : inbox.Addressed sender) (done : inbox.deliver pid = some next) (other : π) :
    next.pending sender other = inbox.pending sender other := by
  obtain ⟨signal,rest,here,rfl⟩ := deliver_inv done
  have named : sender signal = pid := addressed pid signal (here ▸ List.mem_cons_self)
  unfold pending
  by_cases same : other = pid
  · subst same
    simp [List.filter_append,named,here]
  · have different : ¬sender signal = other := fun eq => same (eq.symm.trans named)
    simp [List.filter_append,different,Function.update_of_ne same]

theorem filter_erase [DecidableEq σ] (signal : σ) (wanted : σ → Bool) (l : List σ) :
    (l.erase signal).filter wanted = if wanted signal then (l.filter wanted).erase signal else l.filter wanted := by
  induction l with
  | nil => simp
  | cons first rest ih =>
    by_cases same : first = signal
    · subst same
      by_cases here : wanted first = true <;> simp [here]
    · have kept : (first == signal) = false := beq_false_of_ne same
      by_cases here : wanted first = true
      · rw [List.erase_cons_tail (by simp [kept]),List.filter_cons_of_pos here,ih,List.filter_cons_of_pos here]
        split
        · rw [List.erase_cons_tail (by simp [kept])]
        · rfl
      · rw [List.erase_cons_tail (by simp [kept]),List.filter_cons_of_neg here,ih,List.filter_cons_of_neg here]

theorem pending_take [DecidableEq σ] (member : signal ∈ inbox.mailbox) (pid : π) :
    (inbox.take signal).pending sender pid =
      if sender signal = pid then (inbox.pending sender pid).erase signal else inbox.pending sender pid := by
  unfold pending take
  simp only [filter_erase,decide_eq_true_eq]
  split
  · rename_i same
    rw [List.erase_append_left _ (List.mem_filter.mpr ⟨member,decide_eq_true same⟩)]
  · rfl

theorem mem_pending (member : signal ∈ inbox.mailbox) : signal ∈ inbox.pending sender (sender signal) :=
  List.mem_append_left _ (List.mem_filter.mpr ⟨member,decide_eq_true rfl⟩)

end Inbox

namespace Selective
variable {σ τ : Type*}

-- A selective receive takes the first message that its pattern matches, whatever stands
-- before it stays where it is. Without a match it waits.
def receive (pattern : σ → Option τ) : List σ → Option (τ × List σ)
  | [] => none
  | message :: rest =>
    match pattern message with
    | some taken => some (taken,rest)
    | none => (receive pattern rest).map fun result => (result.1,message :: result.2)

variable {pattern : σ → Option τ} {mailbox rest : List σ} {taken : τ}

theorem receive_inv (done : receive pattern mailbox = some (taken,rest)) :
    ∃ before message behind, mailbox = before ++ message :: behind ∧ rest = before ++ behind ∧
      pattern message = some taken ∧ ∀ other ∈ before, pattern other = none := by
  induction mailbox generalizing rest with
  | nil => cases done
  | cons first others ih =>
    rw [receive] at done
    cases here : pattern first with
    | some found =>
      rw [here] at done
      cases done
      exact ⟨[],first,others,rfl,rfl,here,List.forall_mem_nil _⟩
    | none =>
      rw [here] at done
      obtain ⟨result,later,same⟩ := Option.map_eq_some_iff.mp done
      cases same
      obtain ⟨before,message,behind,rfl,left,found,skipped⟩ := ih later
      refine ⟨first :: before,message,behind,rfl,?_,found,?_⟩
      · rw [left,List.cons_append]
      · exact List.forall_mem_cons.mpr ⟨here,skipped⟩

theorem receive_none : receive pattern mailbox = none ↔ ∀ message ∈ mailbox, pattern message = none := by
  induction mailbox with
  | nil => simp [receive]
  | cons first others ih =>
    rw [receive,List.forall_mem_cons]
    cases here : pattern first with
    | some found => simp
    | none => simp [ih]

-- What is taken is what the pattern says of the first message it matches at all.
theorem receive_first (done : receive pattern mailbox = some (taken,rest)) :
    mailbox.findSome? pattern = some taken := by
  obtain ⟨before,message,behind,rfl,_,found,skipped⟩ := receive_inv done
  rw [List.findSome?_append,List.findSome?_eq_none_iff.mpr skipped,Option.none_or,List.findSome?_cons,found]

end Selective

end KompicsBenches
