import StreamBroker.Proofs.Stream.Courses
import StreamBroker.Proofs.Stream.Interest

/-!
# A work queue loses nothing

A work queue lets a message go as soon as a consumer has settled it, without asking whether anyone
else needs it.  So nothing is lost if a consumer settles only what it has pending, and nothing stays
behind if all that is settled goes at once.  Both are shown of single operations, and then kept in a
ledger: what the consumers of a stream have settled so far is not in the stream, whatever has become
of the consumers since.

## Main definitions

* `StreamOp.settled`, `StreamOp.Settles`: what an operation settles, and why it does
* `StreamOp.Conserves`: what an operation does with the messages of a work queue
* `Stream.LosesOnly`: only some numbers went from a stream
* `Stream.Session`: what can happen to a stream, with the numbers that its consumers have settled

## Main results

* `StreamOp.losesOnly_run`: an operation takes a message or settles it, or leaves it where it is
* `Stream.Session.conserved`: every operation of a session conserves, and nothing comes back
-/

namespace StreamBroker

/-! ## What is settled -/

namespace StreamOp

/-- The numbers that an operation settles on behalf of its consumer. -/
def settled (clock : Clock) (s : Stream) : StreamOp → List Nat
  | collect id limits =>
    match s.consumers.find? fun c => c.id == id with
    | some c => (c.cursor.collect (Retention.expire s.settings clock.wall s.index).2 limits
        clock.elapsed).2.settled
    | none => []
  | acknowledge id n kind =>
    match s.consumers.find? fun c => c.id == id with
    | some c => (c.cursor.acknowledge n kind clock.elapsed).1
    | none => []
  | _ => []

/-- Why an operation settles a message that a consumer has pending: an acknowledgement of the
consumer covers it, or the consumer collects when the message is due and was handed out as often as
is allowed. -/
def Settles (clock : Clock) (s : Stream) (n : Nat) : StreamOp → Prop
  | collect id _ => ∃ c ∈ s.consumers, c.id = id ∧ c.cursor.IsSpent clock.elapsed n
  | acknowledge id k kind => ∃ c ∈ s.consumers, c.id = id ∧ c.cursor.Covers k kind n
  | _ => False

/-- An operation on a work queue takes a message or settles it, or leaves it where it is. -/
structure Conserves (op : StreamOp) (clock : Clock) (s : Stream) (reply : Except Error StreamReply)
    (s' : Stream) : Prop where
  /-- What is settled was pending, and goes. -/
  of_settled : ∀ n ∈ op.settled clock s, op.Settles clock s n ∧ s'.index.get? n = none
  /-- An acknowledgement settles all that it covers. -/
  of_covered : ∀ id k kind, op = .acknowledge id k kind →
    ∀ n, op.Settles clock s n → n ∈ op.settled clock s
  /-- What a consumer that stays has pending no more goes. -/
  of_released : ∀ c ∈ s.consumers, ∀ c' ∈ s'.consumers, c'.id = c.id →
    ∀ n, c.cursor.pending.contains n = true → c'.cursor.pending.contains n = false →
      s'.index.get? n = none
  /-- What goes was to be deleted, too old or too much, or it is settled. -/
  of_gone : ∀ n m, s.index.get? n = some m ∨ op.Stores clock reply n m → s'.index.get? n = none →
    op.Takes clock s n ∨ n ∈ op.settled clock s

end StreamOp

namespace Stream

variable {s s' t u : Stream} {b b' : Backend} {clock : Clock} {c : Consumer} {n : Nat}

/-! ## What goes -/

/-- Only some numbers went from a stream. -/
def LosesOnly (s : Stream) (lost : Nat → Prop) (t : Stream) : Prop :=
  ∀ n m, s.index.get? n = some m → t.index.get? n = none → lost n

namespace LosesOnly

variable {lost lost' : Nat → Prop}

theorem of_index_eq (h : t.index = s.index) : s.LosesOnly lost t := by
  intro n m hm hn
  rw [h, hm] at hn
  cases hn

theorem of_loses {gone : List Nat} (h : s.index.Loses gone t.index) :
    s.LosesOnly (· ∈ gone) t := fun _ _ hm hn => h.mem_of_get? hm hn

theorem mono (h : s.LosesOnly lost t) (himp : ∀ n, lost n → lost' n) : s.LosesOnly lost' t :=
  fun n m hm hn => himp n (h n m hm hn)

theorem trans (h : s.LosesOnly lost t) (h' : t.LosesOnly lost' u) :
    s.LosesOnly (fun n => lost n ∨ lost' n) u := by
  intro n m hm hn
  cases ht : t.index.get? n with
  | none => exact .inl (h n m hm ht)
  | some w => exact .inr (h' n w ht hn)

/-- What was there is there with one more message. -/
theorem of_commit {m : StoredMessage}
    (h : LosesOnly { s with index := s.index.commit m } lost t) : s.LosesOnly lost t := by
  intro n w hw hn
  refine h n (if n = m.sequence then m else w) ((Index.get?_commit s.index m n).trans ?_) hn
  split
  · rfl
  · exact hw

end LosesOnly

/-! ## Operations on the log -/

theorem losesOnly_evict {now : Timestamp} {reply : Except Error Unit}
    (h : s.evict now b = (reply, s', b')) (hreply : reply ≠ .error .numbersExhausted) :
    s.LosesOnly (· ∈ (Retention.expire s.settings now s.index).1) s' := by
  rcases evict_cases h with ⟨rfl, -⟩ | ⟨-, rfl, -⟩
  · exact absurd rfl hreply
  · exact .of_loses (Retention.loses_expire s.settings now s.index)

theorem losesOnly_deleteMessage {reply : Except Error Unit}
    (h : s.deleteMessage n b = (reply, s', b')) (hreply : reply ≠ .error .numbersExhausted) :
    s.LosesOnly (· = n) s' := by
  rcases deleteMessage_cases h with ⟨rfl, -⟩ | ⟨rfl, -⟩ | ⟨rfl, -⟩
  · exact .of_index_eq rfl
  · exact absurd rfl hreply
  · refine (LosesOnly.of_loses (Index.loses_removeAll s.index [n])).mono fun k hk => ?_
    exact List.mem_singleton.1 ((Index.mem_removeAll_iff s.index [n] k).1 hk).1

theorem losesOnly_purge {r : PurgeRequest} {reply : Except Error Nat}
    (h : s.purge r b = (reply, s', b')) (hreply : reply ≠ .error .numbersExhausted) :
    s.LosesOnly (· ∈ s.index.purgeSelection r) s' := by
  rcases purge_cases h with ⟨rfl, -⟩ | ⟨rfl, -⟩ | ⟨left, t, hleft, rfl, hs', -⟩
  · exact .of_index_eq rfl
  · exact absurd rfl hreply
  · have hindex : s'.index = left.2 := by rcases hs' with rfl | rfl <;> rfl
    have hloses := Index.loses_purge hleft
    rw [← hindex] at hloses
    exact (LosesOnly.of_loses hloses).mono fun k hk => Index.mem_purgeSelection hleft hk

theorem losesOnly_changeSettings {settings : StreamSettings} {reply : Except Error Unit}
    (h : s.changeSettings settings clock b = (reply, s', b'))
    (hreply : reply ≠ .error .numbersExhausted) :
    s.LosesOnly (· ∈ (trim settings clock.wall s.index).1) s' := by
  rcases changeSettings_cases h with ⟨rfl, -⟩ | ⟨t, rfl, rfl, -⟩
  · exact absurd rfl hreply
  · exact .of_loses (loses_trim settings clock.wall s.index)

/-- A work queue makes room for a message by its limits alone. -/
theorem makeRoom_of_ne (h : s.settings.retention ≠ .interest) (m : StoredMessage) (x : Index) :
    (s.makeRoom m x).2 = (Retention.enforceLimits s.settings (some m.subject) x).2 := by
  simp only [makeRoom, if_neg h]

/-- A message takes what exceeds the limits with it, which it may do itself. -/
theorem losesOnly_storeMessage {m : StoredMessage} {reply : Except Error Nat}
    (h : s.storeMessage m b = (reply, s', b')) (hne : s.settings.retention ≠ .interest)
    (hreply : reply ≠ .error .numbersExhausted) : s.LosesOnly (· ∈ s.exceeding m) s' ∧
      ∀ n, reply = .ok n → s'.index.get? n = none → n ∈ s.exceeding m := by
  rcases storeMessage_cases h with ⟨e, -, rfl, rfl⟩ | ⟨b₁, -, ⟨rfl, -⟩ | ⟨t, rfl, rfl, rfl, -⟩⟩
  · exact ⟨.of_index_eq rfl, nofun⟩
  · exact absurd rfl hreply
  · have hstored : LosesOnly { s with index := s.index.commit m } (· ∈ s.exceeding m)
        (announce { s with index := (s.makeRoom m (s.index.commit m)).2 } m).notifyAll := by
      refine .of_loses (?_ : (s.index.commit m).Loses (s.exceeding m) (announce _ m).index)
      rw [index_announce, makeRoom_of_ne hne]
      exact Retention.loses_enforceLimits s.settings (some m.subject) (s.index.commit m)
    refine ⟨hstored.of_commit, fun n hn hgone => ?_⟩
    cases hn
    exact hstored _ m ((Index.get?_commit _ _ _).trans (if_pos rfl)) hgone

theorem losesOnly_publish {maxPayload : Nat} {e : Expectations} {m : Message}
    {reply : Except Error Nat} (h : s.publish maxPayload clock e m b = (reply, s', b'))
    (hne : s.settings.retention ≠ .interest) (hreply : reply ≠ .error .numbersExhausted) :
    s.LosesOnly (s.PublishTakes clock.wall.toMicro m) s' ∧ ∀ n, reply = .ok n →
      s'.index.get? n = none → s.PublishTakes clock.wall.toMicro m n := by
  rcases publish_cases h with ⟨⟨error, rfl⟩, rfl, -⟩ | ⟨rfl, -⟩ | ⟨t, b₁, hevict, hrest⟩
  · exact ⟨.of_index_eq rfl, nofun⟩
  · exact absurd rfl hreply
  · have hexpired := losesOnly_evict hevict (by simp)
    rcases hrest with ⟨⟨error, rfl⟩, rfl, -⟩ | ⟨-, -, hstore⟩
    · exact ⟨hexpired.mono fun n => .inl, nofun⟩
    · rcases evict_cases hevict with ⟨hok, -⟩ | ⟨-, rfl, -⟩
      · cases hok
      · obtain ⟨hloses, hstored⟩ := losesOnly_storeMessage hstore hne hreply
        exact ⟨hexpired.trans hloses, fun n hn hgone => .inr (hstored n hn hgone)⟩

/-! ## Consumers come and go -/

/-- A work queue does not look at what nobody needs. -/
theorem index_releaseUnclaimed {reply : Except Error Unit}
    (h : s.releaseUnclaimed b = (reply, s', b')) (hne : s.settings.retention ≠ .interest) :
    s'.index = s.index ∧ s'.settings = s.settings := by
  rw [releaseUnclaimed, if_neg hne] at h
  cases h
  exact ⟨rfl, rfl⟩

theorem index_upsertConsumer {mode : UpsertMode} {id : Nat} {madeUp : String}
    {defaults : BrokerSettings} {settings : ConsumerSettings} {reply : Except Error Nat}
    (h : s.upsertConsumer mode id madeUp defaults settings clock b = (reply, s', b'))
    (hne : s.settings.retention ≠ .interest) (hreply : reply ≠ .error .numbersExhausted) :
    s'.index = s.index := by
  rcases upsertConsumer_cases h with ⟨rfl, -⟩ | ⟨name, wanted, -, -, -, -, hadd⟩ |
    ⟨c, wanted, changed, -, -, -, -, -, hchanged, rfl⟩
  · rfl
  · rw [(Prod.mk.inj (addConsumer_eq_ok hadd)).2]
  · rcases changeConsumer_cases hchanged with ⟨rfl, -⟩ | ⟨t, u, rfl, hrelease, -, rfl⟩
    · exact absurd rfl hreply
    · exact (index_releaseUnclaimed hrelease hne).1

theorem index_deleteConsumer {name : String} {reply : Except Error Unit}
    (h : s.deleteConsumer name b = (reply, s', b')) (hne : s.settings.retention ≠ .interest) :
    s'.index = s.index ∧ s'.settings = s.settings := by
  rcases deleteConsumer_cases h with ⟨rfl, -⟩ | ⟨t, hindex, hsettings, -, hrelease⟩
  · exact ⟨rfl, rfl⟩
  · obtain ⟨hindex', hsettings'⟩ := index_releaseUnclaimed hrelease (hsettings ▸ hne)
    exact ⟨hindex'.trans hindex, hsettings'.trans hsettings⟩

theorem index_deleteConsumers {names : List String} {reply : Except Error Unit}
    (h : s.deleteConsumers names b = (reply, s', b')) (hne : s.settings.retention ≠ .interest) :
    s'.index = s.index := by
  induction names generalizing s b reply with
  | nil =>
    cases h
    rfl
  | cons name names ih =>
    rcases deleteConsumers_cons_cases h with ⟨rfl, hd⟩ | ⟨r, t, b₁, hd, -, hrest⟩
    · exact (index_deleteConsumer hd hne).1
    · obtain ⟨hindex, hsettings⟩ := index_deleteConsumer hd hne
      exact (ih hrest (hsettings ▸ hne)).trans hindex

theorem losesOnly_sweep {reply : Except Error Unit} (h : s.sweep clock b = (reply, s', b'))
    (hne : s.settings.retention ≠ .interest) (hreply : reply ≠ .error .numbersExhausted) :
    s.LosesOnly (· ∈ (Retention.expire s.settings clock.wall s.index).1) s' := by
  rcases sweep_cases h with ⟨rfl, -⟩ | ⟨t, b₁, names, hevict, hdelete⟩
  · exact absurd rfl hreply
  · have hexpired := losesOnly_evict hevict (by simp)
    rcases evict_cases hevict with ⟨hok, -⟩ | ⟨-, rfl, -⟩
    · cases hok
    · have hkept : LosesOnly _ (fun _ => False) s' :=
        .of_index_eq (index_deleteConsumers hdelete hne)
      exact (hexpired.trans hkept).mono fun n hn => hn.resolve_right not_false

/-! ## Handing out and acknowledging -/

/-- A work queue lets go what is settled, and nothing else. -/
theorem losesOnly_releasing (hqueue : s.settings.retention = .workQueue) {settled : List Nat}
    (h : t.index = (s.releasing settled s.index).2) :
    s.LosesOnly (· ∈ settled) t ∧ ∀ n ∈ settled, t.index.get? n = none := by
  have hget (n : Nat) : t.index.get? n = if n ∈ settled then none else s.index.get? n := by
    rw [h, ← Index.get?_removeAll]
    simp only [releasing, Retention.release, hqueue]
  refine ⟨fun n m hm hn => ?_, fun n hn => by rw [hget, if_pos hn]⟩
  apply Decidable.byContradiction
  intro hmem
  rw [hget, if_neg hmem, hm] at hn
  cases hn

theorem losesOnly_collect (hqueue : s.settings.retention = .workQueue) {l : Cursor.Limits}
    {reply : Except Error Collected} (h : s.collect c l clock b = (reply, s', b'))
    (hreply : reply ≠ .error .numbersExhausted) :
    s.LosesOnly (fun n => n ∈ (Retention.expire s.settings clock.wall s.index).1 ∨
      n ∈ (c.cursor.collect (Retention.expire s.settings clock.wall s.index).2 l
        clock.elapsed).2.settled) s' ∧
    ∀ n ∈ (c.cursor.collect (Retention.expire s.settings clock.wall s.index).2 l
      clock.elapsed).2.settled, s'.index.get? n = none := by
  rcases collect_cases h with ⟨rfl, -⟩ | ⟨t, rfl, hhand⟩
  · exact absurd rfl hreply
  · rcases handOut_cases hhand with ⟨rfl, -⟩ | ⟨u, hu, rfl, -⟩
    · exact absurd rfl hreply
    · have hexpired : s.index.Loses (Retention.expire s.settings clock.wall s.index).1 u.index :=
        hu ▸ Retention.loses_expire s.settings clock.wall s.index
      have hqueue' : u.settings.retention = .workQueue := hu ▸ hqueue
      obtain ⟨hreleased, hgone⟩ := losesOnly_releasing hqueue' (t := { u with
        index := (u.releasing _ u.index).2 }) rfl
      exact ⟨(LosesOnly.of_loses hexpired).trans hreleased, hgone⟩

theorem losesOnly_acknowledge (hqueue : s.settings.retention = .workQueue) {k : Nat}
    {kind : AckKind} {reply : Except Error Unit}
    (h : s.acknowledge c k kind clock b = (reply, s', b')) (htakes : s'.takesAcks = true) :
    s.LosesOnly (· ∈ (c.cursor.acknowledge k kind clock.elapsed).1) s' ∧
      ∀ n ∈ (c.cursor.acknowledge k kind clock.elapsed).1, s'.index.get? n = none := by
  rcases acknowledge_cases h with ⟨rfl, -, hstopped⟩ | ⟨hstuck, -⟩ |
    ⟨t, u, _, rfl, rfl, rfl, rfl, -⟩
  · rw [htakes] at hstopped
    cases hstopped
  · rw [hstuck] at htakes
    cases htakes
  · exact losesOnly_releasing (s := s.modifyConsumer c.id _) hqueue rfl

end Stream

/-! ## Operations -/

namespace StreamOp

variable {s s' : Stream} {b b' : Backend} {op : StreamOp} {clock : Clock}
  {reply : Except Error StreamReply}

/-- **An operation on a work queue takes a message or settles it, or leaves it where it is**, and
what it settles goes. -/
theorem losesOnly_run (hqueue : s.settings.retention = .workQueue)
    (h : op.run clock s b = (reply, s', b')) (hreply : reply ≠ .error .numbersExhausted) :
    (∀ n m, s.index.get? n = some m ∨ op.Stores clock reply n m → s'.index.get? n = none →
      op.Takes clock s n ∨ n ∈ op.settled clock s) ∧
    ∀ n ∈ op.settled clock s, s'.index.get? n = none := by
  have hne : s.settings.retention ≠ .interest := by
    rw [hqueue]
    exact nofun
  -- All but a publish store nothing, and all but a hand-out and an acknowledgement settle nothing.
  have hall {lost : Nat → Prop} (hstores : ∀ n m, ¬op.Stores clock reply n m)
      (hloses : s.LosesOnly lost s')
      (hlost : ∀ n, lost n → op.Takes clock s n ∨ n ∈ op.settled clock s) :
      ∀ n m, s.index.get? n = some m ∨ op.Stores clock reply n m → s'.index.get? n = none →
        op.Takes clock s n ∨ n ∈ op.settled clock s :=
    fun n m hm hn => hlost n (hloses n m (hm.resolve_right (hstores n m)) hn)
  cases outcome_run h with
  | publish hr =>
    obtain ⟨hloses, hstored⟩ := Stream.losesOnly_publish hr hne (ne_exhausted_of_map hreply)
    refine ⟨fun n m hm hn => .inl ?_, nofun⟩
    rcases hm with hm | ⟨hok, -⟩
    · exact hloses n m hm hn
    · exact hstored n (map_stored_eq_ok hok) hn
  | deleteMessage hr =>
    exact ⟨hall (fun _ _ h => h) (Stream.losesOnly_deleteMessage hr (ne_exhausted_of_map hreply))
      fun n => .inl, nofun⟩
  | purge hr =>
    exact ⟨hall (fun _ _ h => h) (Stream.losesOnly_purge hr (ne_exhausted_of_map hreply))
      fun n => .inl, nofun⟩
  | evict hr =>
    exact ⟨hall (fun _ _ h => h) (Stream.losesOnly_evict hr (ne_exhausted_of_map hreply))
      fun n => .inl, nofun⟩
  | changeSettings hr =>
    exact ⟨hall (fun _ _ h => h) (Stream.losesOnly_changeSettings hr (ne_exhausted_of_map hreply))
      fun n => .inl, nofun⟩
  | upsertConsumer hr =>
    exact ⟨hall (fun _ _ h => h)
      (.of_index_eq (Stream.index_upsertConsumer hr hne (ne_exhausted_of_map hreply)))
      fun n => False.elim, nofun⟩
  | deleteConsumer hr =>
    exact ⟨hall (fun _ _ h => h) (.of_index_eq (Stream.index_deleteConsumer hr hne).1)
      fun n => False.elim, nofun⟩
  | @collect id c l r _ _ hc hr =>
    obtain ⟨hloses, hgone⟩ := Stream.losesOnly_collect hqueue hr (ne_exhausted_of_map hreply)
    have hsettled : (collect id l).settled clock s = (c.cursor.collect
        (Retention.expire s.settings clock.wall s.index).2 l clock.elapsed).2.settled := by
      simp only [settled, hc]
    rw [← hsettled] at hloses hgone
    exact ⟨hall (fun _ _ h => h) hloses fun _ h => h, hgone⟩
  | @acknowledge id n c kind r _ _ hc hr htakes =>
    obtain ⟨hloses, hgone⟩ := Stream.losesOnly_acknowledge hqueue hr htakes
    have hsettled : (acknowledge id n kind).settled clock s =
        (c.cursor.acknowledge n kind clock.elapsed).1 := by
      simp only [settled, hc]
    rw [← hsettled] at hloses hgone
    exact ⟨hall (fun _ _ h => h) hloses fun _ => .inr, hgone⟩
  | acknowledgeStuck => exact absurd rfl hreply
  | sweep hr =>
    exact ⟨hall (fun _ _ h => h) (Stream.losesOnly_sweep hr hne (ne_exhausted_of_map hreply))
      fun n => .inl, nofun⟩
  | attend => exact ⟨hall (fun _ _ h => h) (.of_index_eq rfl) fun n => False.elim, nofun⟩
  | @collectNone id l hc =>
    have hsettled : (collect id l).settled clock s = [] := by simp only [settled, hc]
    refine ⟨hall (fun _ _ h => h) (.of_index_eq rfl) fun n => False.elim, ?_⟩
    rw [hsettled]
    exact nofun
  | @acknowledgeNone id n kind hc =>
    have hsettled : (acknowledge id n kind).settled clock s = [] := by simp only [settled, hc]
    refine ⟨hall (fun _ _ h => h) (.of_index_eq rfl) fun n => False.elim, ?_⟩
    rw [hsettled]
    exact nofun

/-- What is settled was pending on a consumer. -/
theorem Settles.exists_pending {n : Nat} (h : op.Settles clock s n) :
    ∃ c ∈ s.consumers, c.cursor.pending.contains n = true := by
  cases op with
  | collect id limits =>
    obtain ⟨c, hc, -, p, most, hp, -⟩ := h
    exact ⟨c, hc, SeqMap.contains_iff.2 ⟨p, hp⟩⟩
  | acknowledge id k kind =>
    obtain ⟨c, hc, -, hpending, -⟩ := h
    exact ⟨c, hc, hpending⟩
  | _ => exact h.elim

/-- **An operation settles what its consumer has pending**, as long as no consumer does without
acknowledgements. -/
theorem settles_of_mem_settled {n : Nat} (hs : s.index.Filed)
    (hlt : ∀ {c n}, c ∈ s.consumers → c.cursor.pending.contains n = true → n < c.cursor.nextSeq)
    (hpolicy : ∀ c ∈ s.consumers, c.cursor.settings.ackPolicy ≠ .none)
    (hn : n ∈ op.settled clock s) : op.Settles clock s n := by
  cases op with
  | collect id limits =>
    simp only [settled] at hn
    split at hn
    · next c hc =>
      have hmem := List.mem_of_find?_eq_some hc
      obtain ⟨again, new, given, -, hsettled, hhands, -⟩ := Cursor.hands_collect
        (hs.loses (Retention.loses_expire s.settings clock.wall s.index)) (hlt hmem) limits
        clock.elapsed
      -- All acknowledge, so what a pull settles are deliveries that it gives up.
      rw [hsettled, if_neg (hpolicy c hmem), List.append_nil] at hn
      exact ⟨c, hmem, by simpa using List.find?_some hc, hhands.of_given n hn⟩
    · cases hn
  | acknowledge id k kind =>
    simp only [settled] at hn
    split at hn
    · next c hc =>
      exact ⟨c, List.mem_of_find?_eq_some hc, by simpa using List.find?_some hc,
        (Cursor.mem_settledBy_iff ..).1 hn⟩
    · cases hn
  | _ => cases hn

/-- **An acknowledgement settles all that it covers.** -/
theorem mem_settled_of_covered (hs : s.Roster) {id k n : Nat} {kind : AckKind}
    (h : (acknowledge id k kind).Settles clock s n) :
    n ∈ (acknowledge id k kind).settled clock s := by
  obtain ⟨c, hc, rfl, hcovers⟩ := h
  simp only [settled, hs.find?_id hc]
  exact (Cursor.mem_settledBy_iff ..).2 hcovers

end StreamOp

/-! ## What is pending no more -/

section Released

variable {c : Cursor} {n : Nat}

/-- A cursor that collects has given up what is pending no more, or it was removed. -/
theorem Cursor.mem_settled_of_collect {x : Index} (hx : x.Filed)
    (hlt : ∀ {n}, c.pending.contains n = true → n < c.nextSeq) {l : Limits} {now : Instant}
    (hn : c.pending.contains n = true) (hnot : (c.collect x l now).1.pending.contains n = false) :
    n ∈ (c.collect x l now).2.settled ∨ x.get? n = none := by
  obtain ⟨again, new, given, -, hsettled, hhands, -⟩ := hands_collect hx hlt l now
  rw [SeqMap.contains_eq_false_iff] at hnot
  have hagain : n ∉ again.map Delivery.sequence := by
    intro hmem
    obtain ⟨d, hd, rfl⟩ := List.mem_map.1 hmem
    rw [hhands.pending_again d hd] at hnot
    cases hnot
  by_cases hgiven : n ∈ given
  · exact .inl (hsettled ▸ List.mem_append_left _ hgiven)
  · rw [hhands.pending_eq n hagain hgiven (.inr (hhands.passes.notMem (hlt hn)))] at hnot
    split at hnot
    · rw [SeqMap.contains_eq_false_iff.2 hnot] at hn
      cases hn
    · next hx => exact .inr (Index.contains_eq_false_iff.1 (Bool.eq_false_iff.2 hx))

/-- A cursor that notes an acknowledgement has settled what is pending no more. -/
theorem Cursor.mem_settledBy_of_acknowledge {k : Nat} {kind : AckKind} {now : Instant}
    (hn : c.pending.contains n = true)
    (hnot : (c.acknowledge k kind now).2.pending.contains n = false) : n ∈ c.settledBy k kind := by
  apply Decidable.byContradiction
  intro hmem
  obtain ⟨p, hp⟩ := SeqMap.contains_iff.1 hn
  rw [SeqMap.contains_eq_false_iff, get?_pending_acknowledge, if_neg hmem, hp] at hnot
  split at hnot
  · split at hnot <;> cases hnot
  · cases hnot

/-- What a step of a consumer leaves pending no more is settled, or it is too old. -/
theorem CursorStep.mem_settled {s : Stream} {clock : Clock} {reply : Except Error StreamReply}
    {c : Consumer} {op : StreamOp} {cursor : Cursor} (h : CursorStep s clock reply c op cursor)
    (hs : s.Roster) (hc : c ∈ s.consumers)
    (hlt : ∀ {n}, c.cursor.pending.contains n = true → n < c.cursor.nextSeq)
    (hn : c.cursor.pending.contains n = true) (hnot : cursor.pending.contains n = false) :
    n ∈ op.settled clock s ∨ (∃ l, op = .collect c.id l) ∧
      (Retention.expire s.settings clock.wall s.index).2.get? n = none := by
  -- Where the same is pending as before, there is nothing to show.
  have hsame (hpending : cursor.pending = c.cursor.pending) : False := by
    rw [hpending, hn] at hnot
    cases hnot
  cases h with
  | kept => exact (hsame rfl).elim
  | @collected l =>
    have hx := hs.filed.loses (Retention.loses_expire s.settings clock.wall s.index)
    refine (Cursor.mem_settled_of_collect hx hlt hn hnot).imp ?_ fun hold => ⟨⟨l, rfl⟩, hold⟩
    intro hsettled
    simpa only [StreamOp.settled, hs.find?_id hc] using hsettled
  | acknowledged =>
    left
    simp only [StreamOp.settled, hs.find?_id hc]
    exact Cursor.mem_settledBy_of_acknowledge hn hnot
  | configured => exact (hsame rfl).elim
  | @attended a => cases a <;> exact (hsame rfl).elim

end Released

/-! ## Lives -/

/-- Whether a consumer acknowledges is decided when it is created. -/
theorem CursorStep.ackPolicy_eq {s : Stream} {clock : Clock} {reply : Except Error StreamReply}
    {c : Consumer} {op : StreamOp} {cursor : Cursor} (h : CursorStep s clock reply c op cursor)
    (hx : s.index.Filed)
    (hlt : ∀ {n}, c.cursor.pending.contains n = true → n < c.cursor.nextSeq) :
    cursor.settings.ackPolicy = c.cursor.settings.ackPolicy := by
  cases h with
  | kept => rfl
  | @collected l =>
    obtain ⟨_, _, _, -, -, hhands, -⟩ := Cursor.hands_collect
      (hx.loses (Retention.loses_expire s.settings clock.wall s.index)) hlt l clock.elapsed
    rw [hhands.settings_eq]
  | acknowledged => rw [(Cursor.samePlace_acknowledge ..).settings]
  | configured hname hfilter h hdisjoint hreply => exact h.fixed_eq.1
  | @attended a => cases a <;> rfl

namespace Stream

variable {others : Backend → Backend → Prop} {events : List StreamEvent} {ns : List Nat}
  {s s' : Stream} {b₀ b b' : Backend}

/-- All consumers of a work queue acknowledge. -/
theorem Life.ackPolicy_ne (life : Life others b₀ events s b)
    (hqueue : s.settings.retention = .workQueue) :
    ∀ c ∈ s.consumers, c.cursor.settings.ackPolicy ≠ .none := by
  induction life with
  | opened hcheck hclock h =>
    rw [consumers_of_open? h]
    exact fun c hc => nomatch hc
  | operated life hop hclock h hreply ih =>
    obtain ⟨ms, hmoves, -⟩ := StreamOp.moves_run hclock hop h hreply
    have hqueue' := hmoves.retention ▸ hqueue
    intro c hc
    -- A consumer goes on from one that was there, or is hired by the stream as it is.
    rcases StreamOp.staff_run life.roster.ids hop h hreply with hcontinues | ⟨d, hhires⟩
    · obtain ⟨d, hd, -, -, hstep⟩ := hcontinues.exists_of_mem hc
      rw [hstep.ackPolicy_eq life.roster.filed fun hn => (life.pending_lt hd hn).1]
      exact ih hqueue' d hd
    · rw [hhires.consumers_eq, List.mem_append] at hc
      rcases hc with hc | hc
      · exact ih hqueue' c hc
      · obtain rfl := List.mem_singleton.1 hc
        exact hhires.ackPolicy_ne hqueue'
  | reopened life hs hcheck hname hstorage hclock h ih =>
    rw [consumers_of_open? h]
    exact fun c hc => nomatch hc
  | elsewhere life h ih => exact ih hqueue

/-! ## Sessions -/

/-- What can happen to a stream from some time of its life on, with the numbers that its consumers
have settled since.  As in a life, operations are answered or refused, and none runs out of numbers.
The stream may be opened again by a broker that starts anew, if its journal gives back what the
stream had. -/
inductive Session (others : Backend → Backend → Prop) (b₀ : Backend) :
    List Nat → Stream → Backend → Prop where
  | begun {events : List StreamEvent} {s : Stream} {b : Backend}
      (life : Life others b₀ events s b) : Session others b₀ [] s b
  | operated {ns : List Nat} {s s' : Stream} {b b' : Backend} {op : StreamOp} {clock : Clock}
      {reply : Except Error StreamReply} (session : Session others b₀ ns s b) (hop : op.IsProper s)
      (hclock : clock.IsDated) (h : op.run clock s b = (reply, s', b'))
      (hreply : reply ≠ .error .numbersExhausted) :
      Session others b₀ (ns ++ op.settled clock s) s' b'
  | reopened {ns : List Nat} {s s' : Stream} {b b₁ b' : Backend} {id : Nat} {x : Index}
      {settings : StreamSettings} {clock : Clock} (session : Session others b₀ ns s b)
      (hs : s.isJournaled = true) (hcheck : settings.check = .ok ())
      (hname : settings.name = s.name) (hstorage : settings.storage = .file)
      (hretention : settings.retention = s.settings.retention) (hclock : clock.IsDated)
      (hread : reread settings b = (.ok x, b₁)) (hagrees : x.Agrees s.index)
      (h : open? id settings clock b = (.ok s', b')) : Session others b₀ ns s' b'
  | elsewhere {ns : List Nat} {s : Stream} {b b' : Backend} (session : Session others b₀ ns s b)
      (h : others b b') : Session others b₀ ns s b'

theorem Session.exists_life (session : Session others b₀ ns s b) :
    ∃ events, Life others b₀ events s b := by
  induction session with
  | begun life => exact ⟨_, life⟩
  | operated session hop hclock h hreply ih =>
    obtain ⟨events, life⟩ := ih
    exact ⟨_, life.operated hop hclock h hreply⟩
  | reopened session hs hcheck hname hstorage hretention hclock hread hagrees h ih =>
    obtain ⟨events, life⟩ := ih
    exact ⟨_, life.reopened hs hcheck hname hstorage hclock h⟩
  | elsewhere session h ih =>
    obtain ⟨events, life⟩ := ih
    exact ⟨events, life.elsewhere h⟩

/-- What an operation on a work queue settles was pending on its consumer, and had a number that was
given. -/
theorem Life.settles (life : Life others b₀ events s b)
    (hqueue : s.settings.retention = .workQueue) {op : StreamOp} {clock : Clock} {n : Nat}
    (hn : n ∈ op.settled clock s) : op.Settles clock s n ∧ n ≤ s.index.lastSeq := by
  have hsettles := StreamOp.settles_of_mem_settled life.roster.filed
    (fun hc hn => (life.pending_lt hc hn).1) (life.ackPolicy_ne hqueue) hn
  obtain ⟨c, hc, hpending⟩ := hsettles.exists_pending
  exact ⟨hsettles, (life.pending_lt hc hpending).2⟩

/-- What was settled is gone, and its number is not given again. -/
theorem Session.settled_gone (session : Session others b₀ ns s b)
    (hqueue : s.settings.retention = .workQueue) :
    ∀ n ∈ ns, n ≤ s.index.lastSeq ∧ s.index.get? n = none := by
  -- No message comes under a number that was given.
  have hstays {x y : Index} {n : Nat} (hkeeps : x.lastSeq ≤ y.lastSeq ∧
      ∀ {n m}, y.get? n = some m → n ≤ x.lastSeq → x.get? n = some m)
      (h : n ≤ x.lastSeq ∧ x.get? n = none) : n ≤ y.lastSeq ∧ y.get? n = none := by
    refine ⟨Nat.le_trans h.1 hkeeps.1, Option.eq_none_iff_forall_ne_some.2 fun m hm => ?_⟩
    rw [hkeeps.2 hm h.1] at h
    cases h.2
  induction session with
  | begun life => exact nofun
  | operated session hop hclock h hreply ih =>
    obtain ⟨events, life⟩ := session.exists_life
    obtain ⟨ms, hmoves, -⟩ := StreamOp.moves_run hclock hop h hreply
    have hqueue' := hmoves.retention ▸ hqueue
    intro n hn
    rcases List.mem_append.1 hn with hn | hn
    · exact hstays hmoves.run.keeps (ih hqueue' n hn)
    · obtain ⟨-, hgone⟩ := StreamOp.losesOnly_run hqueue' h hreply
      exact ⟨Nat.le_trans (life.settles hqueue' hn).2 hmoves.run.keeps.1, hgone n hn⟩
  | reopened session hs hcheck hname hstorage hretention hclock hread hagrees h ih =>
    obtain ⟨y, b₂, hread', rfl, hrun⟩ := moves_of_open? h
    obtain ⟨rfl, -⟩ : y = _ ∧ _ := by
      rw [hread] at hread'
      simpa using hread'.symm
    intro n hn
    obtain ⟨hle, hgone⟩ := ih (hretention ▸ hqueue) n hn
    refine hstays hrun.keeps ⟨hagrees.lastSeq ▸ hle, ?_⟩
    rw [Index.get?, hagrees.messages]
    exact hgone
  | elsewhere session h ih => exact ih hqueue

/-- What a consumer of a work queue has pending no more has gone with the operation. -/
theorem Life.released_gone (life : Life others b₀ events s b)
    (hqueue : s.settings.retention = .workQueue) {op : StreamOp} {clock : Clock}
    {reply : Except Error StreamReply} {c c' : Consumer} {n : Nat} (hop : op.IsProper s)
    (h : op.run clock s b = (reply, s', b')) (hreply : reply ≠ .error .numbersExhausted)
    (hc : c ∈ s.consumers) (hc' : c' ∈ s'.consumers) (hid : c'.id = c.id)
    (hn : c.cursor.pending.contains n = true) (hnot : c'.cursor.pending.contains n = false) :
    s'.index.get? n = none := by
  have hs := life.roster
  rcases StreamOp.staff_run hs.ids hop h hreply with hcontinues | ⟨d, hhires⟩
  · obtain ⟨d, hd, hid', -, hstep⟩ := hcontinues.exists_of_mem hc'
    obtain rfl : d = c := hs.eq_of_id hd hc (hid'.symm.trans hid)
    rcases hstep.mem_settled hs hd (fun hn => (life.pending_lt hd hn).1) hn hnot with
      hsettled | ⟨⟨l, rfl⟩, hold⟩
    · exact (StreamOp.losesOnly_run hqueue h hreply).2 n hsettled
    · obtain ⟨gone, hloses⟩ := StreamOp.loses_of_run_collect hd h hreply
      refine Option.eq_none_iff_forall_ne_some.2 fun m hm => ?_
      rw [hloses.get?_of_get? hm] at hold
      cases hold
  · -- The others stay as they are, and the new one has another number.
    rw [hhires.consumers_eq, List.mem_append, List.mem_singleton] at hc'
    rcases hc' with hc' | rfl
    · rw [hs.eq_of_id hc' hc hid, hn] at hnot
      cases hnot
    · exact absurd hid.symm (hhires.id_ne c hc)

/-- **A work queue loses nothing, and keeps nothing that is settled**: throughout a session no
message is there that any consumer has settled, whatever became of the consumer since; and the next
operation settles only what its consumer has pending and lets it go, and nothing else goes of what
it finds or stores but what was to be deleted, too old or too much.  What an acknowledgement covers
is settled, and what a consumer that stays has pending no more is gone. -/
theorem Session.conserved (session : Session others b₀ ns s b)
    (hqueue : s.settings.retention = .workQueue) :
    (∀ n ∈ ns, s.index.get? n = none) ∧
      ∀ (op : StreamOp) (clock : Clock) (reply : Except Error StreamReply) (s' : Stream)
        (b' : Backend), op.IsProper s → op.run clock s b = (reply, s', b') →
          reply ≠ .error .numbersExhausted → op.Conserves clock s reply s' := by
  obtain ⟨events, life⟩ := session.exists_life
  refine ⟨fun n hn => (session.settled_gone hqueue n hn).2, ?_⟩
  intro op clock reply s' b' hop h hreply
  obtain ⟨hlost, hgone⟩ := StreamOp.losesOnly_run hqueue h hreply
  exact {
    of_settled := fun n hn => ⟨(life.settles hqueue hn).1, hgone n hn⟩
    of_covered := by
      rintro id k kind rfl n hn
      exact StreamOp.mem_settled_of_covered life.roster hn
    of_released := fun c hc c' hc' hid n hn hnot =>
      life.released_gone hqueue hop h hreply hc hc' hid hn hnot
    of_gone := hlost
  }

/-- What a consumer has acknowledged is gone, and what it terminates goes. -/
theorem settled_goes :
    ∃ ns s b s' b' m, Session (Backend.Elsewhere "stream_S") blankBackend ns s b ∧
      s.settings.retention = .workQueue ∧ 1 ∈ ns ∧ s.index.get? 1 = none ∧
      s.index.get? 2 = some m ∧
      (StreamOp.acknowledge 0 2 .terminate).run epochClock s b = (.ok .done, s', b') ∧
      s'.index.get? 2 = none ∧ (StreamOp.acknowledge 0 2 .terminate).Settles epochClock s 2 := by
  have hclock : epochClock.IsDated := rfl
  obtain ⟨s₀, b₀, s₁, b₁, s₂, b₂, s₃, b₃, s₄, b₄, s, b, s', b', r, m, hopen, hpublish, hpublish',
      hcreate, hcollect, hack, hterminate, hnew, hqueue, hsettled, hm, hgone⟩ :
      ∃ s₀ b₀ s₁ b₁ s₂ b₂ s₃ b₃ s₄ b₄ s b s' b' r m,
        open? 0 { name := "S", retention := .workQueue } epochClock blankBackend = (.ok s₀, b₀) ∧
        plainPublish.run epochClock s₀ b₀ = (.ok (.stored 1), s₁, b₁) ∧
        plainPublish.run epochClock s₁ b₁ = (.ok (.stored 2), s₂, b₂) ∧
        (StreamOp.upsertConsumer .create 0 "C" {} {}).run epochClock s₂ b₂ =
          (.ok (.consumer 0), s₃, b₃) ∧
        (StreamOp.collect 0 { batch := 2 }).run epochClock s₃ b₃ = (.ok r, s₄, b₄) ∧
        (StreamOp.acknowledge 0 1 .ack).run epochClock s₄ b₄ = (.ok .done, s, b) ∧
        (StreamOp.acknowledge 0 2 .terminate).run epochClock s b = (.ok .done, s', b') ∧
        s₂.consumerById? 0 = none ∧ s.settings.retention = .workQueue ∧
        (StreamOp.acknowledge 0 1 .ack).settled epochClock s₄ = [1] ∧ s.index.get? 2 = some m ∧
        s'.index.get? 2 = none :=
    ⟨_, _, _, _, _, _, _, _, _, _, _, _, _, _, _, _, rfl, rfl, rfl, rfl, rfl, rfl, rfl, rfl, rfl,
      rfl, rfl, rfl⟩
  have session : Session (Backend.Elsewhere "stream_S") blankBackend _ s b :=
    (((((Session.begun (.opened rfl hclock hopen)).operated (by trivial) hclock hpublish
      nofun).operated (by trivial) hclock hpublish' nofun).operated (by exact hnew) hclock hcreate
      nofun).operated (by trivial) hclock hcollect nofun).operated (by trivial) hclock hack nofun
  obtain ⟨hledger, hnext⟩ := session.conserved hqueue
  have hconserves := hnext _ _ _ _ _ (by trivial) hterminate nofun
  have hacked : 1 ∈ (StreamOp.acknowledge 0 1 .ack).settled epochClock s₄ := by
    rw [hsettled]
    exact List.mem_singleton_self 1
  -- Nothing is taken by an acknowledgement, so the message was settled.
  have hterminated := (hconserves.of_gone 2 m (.inl hm) hgone).resolve_left not_false
  exact ⟨_, s, b, s', b', m, session, hqueue, List.mem_append_right _ hacked,
    hledger 1 (List.mem_append_right _ hacked), hm, hterminate, hgone,
    (hconserves.of_settled 2 hterminated).1⟩

end Stream

end StreamBroker
