import StreamBroker.Proofs.Index.Queries
import StreamBroker.Proofs.Stream.Moves

/-!
# What a stream announces

A stream announces the messages that come to it, unless the limits take a message away as soon as it
has come.  So what an operation announced can be told from the stream before and after it: it is
what the index has behind the number that was the last.  Operations other than a publish announce
nothing, and nothing comes by them either.

## Main definitions

* `Stream.newcomers`: what has come to a stream and is still there
* `Stream.Announces`: just what has come was announced

## Main results

* `StreamOp.events_run`: only a publish announces
* `StreamOp.announces_run`: an operation announces what has come by it
-/

namespace StreamBroker

namespace Stream

variable {s s' t : Stream} {b b' : Backend} {f : Index → List Nat × Index} {clock : Clock}

/-- The messages that have come to a stream since it was like another, and are still there. -/
def newcomers (s s' : Stream) : List StoredMessage :=
  s'.index.toList.filter fun m => decide (s.index.lastSeq < m.sequence)

/-- What has come to a stream was announced in the order of the numbers, and nothing else. -/
structure Announces (s s' : Stream) : Prop where
  /-- The announcements are given newest first. -/
  events_eq : s'.events = (s.newcomers s').reverse ++ s.events
  /-- No number is given again. -/
  lastSeq_le : s.index.lastSeq ≤ s'.index.lastSeq
  /-- Messages are found under their numbers. -/
  filed : s'.index.Filed

/-! ## Operations that announce nothing -/

theorem events_reduce (s : Stream) (f : Index → List Nat × Index) :
    (s.reduce f).2.events = s.events := by
  simp only [reduce]
  split <;> rfl

theorem events_reduceAll (s : Stream) (f : Index → List Nat × Index) (b : Backend) :
    (s.reduceAll f b).2.1.events = s.events := by
  have hreduce := events_reduce s f
  rw [reduceAll]
  split <;> next h => rwa [h] at hreduce

theorem events_releaseUnclaimed (s : Stream) (b : Backend) :
    (s.releaseUnclaimed b).2.1.events = s.events := by
  rw [releaseUnclaimed]
  split
  · exact events_reduceAll _ _ _
  · rfl

theorem events_deleteMessage (s : Stream) (n : Nat) (b : Backend) :
    (s.deleteMessage n b).2.1.events = s.events := by
  have hreduce := events_reduce s (·.removeAll [n])
  rw [deleteMessage]
  split
  · split <;> next h => rwa [h] at hreduce
  · rfl

theorem events_purge (s : Stream) (r : PurgeRequest) (b : Backend) :
    (s.purge r b).2.1.events = s.events := by
  rw [purge]
  split
  · rfl
  · split
    · rfl
    · next left _ =>
      have hreduce := events_reduce s fun _ => left
      split
      · next h => rwa [h] at hreduce
      · next h =>
        rw [h] at hreduce
        split <;> exact hreduce

theorem events_changeSettings (s : Stream) (settings : StreamSettings) (clock : Clock)
    (b : Backend) : (s.changeSettings settings clock b).2.1.events = s.events := by
  have hreduce := events_reduce s (trim settings clock.wall)
  rw [changeSettings]
  split <;> next h => rwa [h] at hreduce

theorem events_changeConsumer (s : Stream) (c : Consumer) (settings : ConsumerSettings)
    (b : Backend) : (s.changeConsumer c settings b).2.1.events = s.events := by
  have hrelease := events_releaseUnclaimed
    (s.modifyConsumer c.id (·.mapCursor ({ · with settings }))) b
  simp only [changeConsumer]
  split <;> next h => rwa [h] at hrelease

theorem events_upsertConsumer (s : Stream) (mode : UpsertMode) (id : Nat) (madeUp : String)
    (defaults : BrokerSettings) (settings : ConsumerSettings) (clock : Clock) (b : Backend) :
    (s.upsertConsumer mode id madeUp defaults settings clock b).2.1.events = s.events := by
  cases h : s.upsertConsumer mode id madeUp defaults settings clock b with
  | mk reply left =>
    obtain ⟨s', b'⟩ := left
    rcases upsertConsumer_cases h with ⟨rfl, -⟩ | ⟨name, wanted, -, -, -, -, hadd⟩ |
      ⟨c, wanted, changed, -, -, -, -, -, hchange, -⟩
    · rfl
    · cases addConsumer_eq_ok hadd
      rfl
    · have hevents := events_changeConsumer s c wanted b
      rwa [hchange] at hevents

theorem events_deleteConsumer (s : Stream) (name : String) (b : Backend) :
    (s.deleteConsumer name b).2.1.events = s.events := by
  rw [deleteConsumer]
  split
  · rfl
  · exact events_releaseUnclaimed _ b

theorem events_deleteConsumers (s : Stream) (names : List String) (b : Backend) :
    (s.deleteConsumers names b).2.1.events = s.events := by
  induction names generalizing s b with
  | nil => rfl
  | cons name names ih =>
    have hdelete := events_deleteConsumer s name b
    rw [deleteConsumers]
    split
    · next h => rwa [h] at hdelete
    · next h =>
      rw [h] at hdelete
      exact (ih _ _).trans hdelete

theorem events_sweep (s : Stream) (clock : Clock) (b : Backend) :
    (s.sweep clock b).2.1.events = s.events := by
  have hevict : (s.evict clock.wall b).2.1.events = s.events := events_reduceAll _ _ _
  rw [sweep]
  split
  · next h => rwa [h] at hevict
  · next h =>
    rw [h] at hevict
    exact (events_deleteConsumers _ _ _).trans hevict

theorem events_handOut (s : Stream) (id : Nat) (cursor : Cursor) (haul : Cursor.Haul)
    (expired : List Nat) (b : Backend) :
    (s.handOut id cursor haul expired b).2.1.events = s.events := by
  have hreduce := events_reduce (s.modifyConsumer id (·.mapCursor fun _ => cursor))
    (releasing (s.modifyConsumer id (·.mapCursor fun _ => cursor)) haul.settled)
  simp only [handOut]
  split
  · next h => rwa [h] at hreduce
  · next h =>
    rw [h] at hreduce
    split <;> exact hreduce

theorem events_collect (s : Stream) (c : Consumer) (l : Cursor.Limits) (clock : Clock)
    (b : Backend) : (s.collect c l clock b).2.1.events = s.events := by
  have hreduce := events_reduce s (Retention.expire s.settings clock.wall)
  rw [collect]
  split
  · next h => rwa [h] at hreduce
  · next h =>
    rw [h] at hreduce
    dsimp only
    split
    · exact (events_handOut _ _ _ _ _ _).trans hreduce
    · exact hreduce

theorem events_acknowledge (s : Stream) (c : Consumer) (n : Nat) (kind : AckKind) (clock : Clock)
    (b : Backend) : (s.acknowledge c n kind clock b).2.1.events = s.events := by
  simp only [acknowledge]
  split
  · have hreduce := events_reduceAll (s.modifyConsumer c.id
      (·.mapCursor fun _ => (c.cursor.acknowledge n kind clock.elapsed).2))
      (releasing (s.modifyConsumer c.id
        (·.mapCursor fun _ => (c.cursor.acknowledge n kind clock.elapsed).2))
        (c.cursor.acknowledge n kind clock.elapsed).1) b
    split <;> next h => rwa [h] at hreduce
  · rfl

/-! ## Messages that come -/

/-- Nothing has come to a stream that only lost messages. -/
theorem newcomers_of_loses (hs : s.index.Filed) {gone : List Nat}
    (h : s.index.Loses gone s'.index) : s.newcomers s' = [] := by
  refine List.filter_eq_nil_iff.2 fun m hm => ?_
  have hget := (hs.loses h).mem_toList_iff.1 hm
  have hle := hs.le_lastSeq (h.get?_of_get? hget)
  simpa using hle

/-- What only loses messages announces nothing. -/
theorem announces_of_loses (hs : s.index.Filed) (hevents : s'.events = s.events) {gone : List Nat}
    (h : s.index.Loses gone s'.index) : s.Announces s' where
  events_eq := by rw [newcomers_of_loses hs h, hevents, List.reverse_nil, List.nil_append]
  lastSeq_le := Nat.le_of_eq h.lastSeq_eq.symm
  filed := hs.loses h

/-- What comes behind the last number is all that has come, if it stays. -/
theorem newcomers_of_commit (hs : s.index.Filed) {x : Index} {m : StoredMessage}
    (hlast : x.lastSeq = s.index.lastSeq) (hx : ∀ n w, x.get? n = some w → s.index.get? n = some w)
    (hm : m.sequence = x.lastSeq + 1) {gone : List Nat} (h : (x.commit m).Loses gone s'.index) :
    s.newcomers s' = if s'.index.contains m.sequence then [m] else [] := by
  have hfiled : s'.index.Filed := ((hs.of_get? (hx _ _) (Nat.le_of_eq hlast.symm)).commit m).loses h
  refine eq_of_ascending (·.sequence) (hfiled.pairwise_toList.filter _) ?_ fun w => ?_
  · split
    · exact List.pairwise_singleton ..
    · exact .nil
  rw [newcomers, hfiled.mem_filter_iff, decide_eq_true_eq]
  -- Only the message that is committed comes, and not even that if room was made at its cost.
  constructor
  · rintro ⟨hw, hlt⟩
    have hcommit := h.get?_of_get? hw
    rw [Index.get?_commit] at hcommit
    split at hcommit
    · next hn =>
      cases hcommit
      rw [if_pos (Index.contains_iff.2 ⟨_, hw⟩)]
      exact List.mem_singleton_self _
    · exact absurd (hs.le_lastSeq (hx _ _ hcommit)) (Nat.not_le.2 hlt)
  · intro hw
    split at hw
    · next hcontains =>
      obtain rfl := List.mem_singleton.1 hw
      obtain ⟨v, hv⟩ := Index.contains_iff.1 hcontains
      have hcommit := h.get?_of_get? hv
      rw [Index.get?_commit, if_pos rfl] at hcommit
      cases hcommit
      exact ⟨hv, by omega⟩
    · cases hw

/-- **A publish announces** the message that it stores, if the message is still there in the end. -/
theorem announces_publish (hs : s.index.Filed) {maxPayload : Nat} {e : Expectations} {m : Message}
    {reply : Except Error Nat} (h : s.publish maxPayload clock e m b = (reply, s', b'))
    (hreply : reply ≠ .error .numbersExhausted) : s.Announces s' := by
  rcases publish_cases h with ⟨-, rfl, -⟩ | ⟨rfl, -⟩ | ⟨t, b₁, hevict, hrest⟩
  · exact announces_of_loses hs rfl (.refl _)
  · exact absurd rfl hreply
  · rcases evict_cases hevict with ⟨herror, -⟩ | ⟨-, ht, -⟩
    · cases herror
    have hevents : t.events = s.events := by rw [ht]
    have hloses : s.index.Loses (Retention.expire s.settings clock.wall.toMicro s.index).1
        t.index := by
      rw [ht]
      exact Retention.loses_expire _ _ _
    rcases hrest with ⟨-, rfl, -⟩ | ⟨-, -, hstore⟩
    · exact announces_of_loses hs hevents hloses
    rcases storeMessage_cases hstore with ⟨e, -, -, rfl⟩ | ⟨b₂, -, ⟨rfl, -⟩ | ⟨u, hu, -, rfl, -⟩⟩
    · exact announces_of_loses hs hevents hloses
    · exact absurd rfl hreply
    -- The message is filed first, and the room that is made for it may be its own.
    generalize hstored : m.stored (t.index.lastSeq + 1) clock.wall.toMicro = stored at *
    have hsequence : stored.sequence = t.index.lastSeq + 1 := hstored ▸ rfl
    have hroom : (t.index.commit stored).Loses (t.makeRoom stored (t.index.commit stored)).1
        u.index := by
      rw [hu, index_announce]
      exact loses_makeRoom t stored (t.index.commit stored)
    have hroom' : Index.Loses _ _ u.notifyAll.index := hroom
    have hnew : s.newcomers u.notifyAll =
        if u.index.contains stored.sequence then [stored] else [] :=
      newcomers_of_commit hs hloses.lastSeq_eq
        (fun n w hw => hloses.get?_of_get? hw) hsequence hroom'
    refine ⟨?_, ?_, ((hs.loses hloses).commit stored).loses hroom⟩
    · -- It is announced under the same condition.
      rw [hnew]
      show u.events = _
      have hindex : u.index = (t.makeRoom stored (t.index.commit stored)).2 := by
        rw [hu, index_announce]
      rw [hindex, hu, announce, ← hevents]
      split <;> rfl
    · show s.index.lastSeq ≤ u.index.lastSeq
      rw [hroom.lastSeq_eq, ← hloses.lastSeq_eq]
      exact Nat.le_max_left _ _

end Stream

namespace StreamOp

variable {s s' : Stream} {b b' : Backend} {op : StreamOp} {clock : Clock}
  {reply : Except Error StreamReply}

open StreamBroker.Stream

/-- Only a publish announces. -/
theorem events_run (hop : ∀ maxPayload e m, op ≠ .publish maxPayload e m)
    (h : op.run clock s b = (reply, s', b')) : s'.events = s.events := by
  have hunchanged {α : Type} {r : Except Error α} {f : Except Error α × Stream × Backend}
      (hr : f = (r, s', b')) (hf : f.2.1.events = s.events) : s'.events = s.events := by
    rwa [hr] at hf
  cases outcome_run h with
  | publish => exact absurd rfl (hop _ _ _)
  | deleteMessage hr => exact hunchanged hr (events_deleteMessage _ _ _)
  | purge hr => exact hunchanged hr (events_purge _ _ _)
  | evict hr => exact hunchanged hr (events_reduceAll _ _ _)
  | changeSettings hr => exact hunchanged hr (events_changeSettings _ _ _ _)
  | upsertConsumer hr => exact hunchanged hr (events_upsertConsumer _ _ _ _ _ _ _ _)
  | deleteConsumer hr => exact hunchanged hr (events_deleteConsumer _ _ _)
  | collect _ hr => exact hunchanged hr (events_collect _ _ _ _ _)
  | acknowledge _ hr => exact hunchanged hr (events_acknowledge _ _ _ _ _ _)
  | acknowledgeStuck hr => exact hunchanged hr (events_acknowledge _ _ _ _ _ _)
  | sweep hr => exact hunchanged hr (events_sweep _ _ _)
  | attend => rfl
  | collectNone => rfl
  | acknowledgeNone => rfl

/-- **An operation announces what has come by it**, and nothing else. -/
theorem announces_run (hs : s.index.Filed) (hclock : clock.IsDated) (hop : op.IsProper s)
    (h : op.run clock s b = (reply, s', b')) (hreply : reply ≠ .error .numbersExhausted) :
    s.Announces s' := by
  by_cases hpublish : ∃ maxPayload e m, op = .publish maxPayload e m
  · obtain ⟨maxPayload, e, m, rfl⟩ := hpublish
    cases outcome_run h with
    | publish hr => exact announces_publish hs hr (ne_exhausted_of_map hreply)
  · -- Without a publish no number is given, so the steps of the log store no message.
    have hne (maxPayload : Nat) (e : Expectations) (m : Message) : op ≠ .publish maxPayload e m :=
      fun heq => hpublish ⟨_, _, _, heq⟩
    obtain ⟨ms, hmoves, hms⟩ := moves_run hclock hop h hreply
    have hnone : (StreamEvent.operated s op reply).assigned = none := by
      refine Option.eq_none_iff_forall_ne_some.2 fun n hn => ?_
      obtain rfl := StreamEvent.assigned_operated.1 hn
      obtain ⟨maxPayload, e, m, heq, -⟩ := publish_of_stored h
      exact hne _ _ _ heq
    rw [hnone] at hms
    obtain ⟨gone, hloses⟩ := hmoves.run.loses (List.map_eq_nil_iff.1 hms)
    exact announces_of_loses hs (events_run hne h) hloses

end StreamOp

end StreamBroker
