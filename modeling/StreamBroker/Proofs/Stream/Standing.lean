import StreamBroker.Proofs.Cursor.Batches
import StreamBroker.Proofs.Stream.Staff

/-!
# What consumers are up to

Besides its place among the messages a stream notes of a consumer how many pulls wait for it,
whether it has a subscription, and when it last did something.  Operations on the stream leave the
first two as they are, and the last one too unless the consumer itself collects or acknowledges.
What a sweep takes away are just the consumers that have done nothing for too long.

## Main definitions

* `StreamOp.isDoneBy`: an operation is something that a consumer does
* `Consumer.Stays`: what becomes of a consumer that is left

## Main results

* `StreamOp.stays_run`: an operation leaves what is noted of consumers, or one is new
* `Stream.consumers_sweep_eq`: which consumers a sweep leaves
-/

namespace StreamBroker

/-- An operation is something that a consumer does. -/
def StreamOp.isDoneBy (consumer : Nat) : StreamOp → Bool
  | collect id _ | acknowledge id .. => id == consumer
  | _ => false

/-- What becomes of a consumer that is left: it was active now, or not since. -/
structure Consumer.Stays (now : Instant) (active : Bool) (c d : Consumer) : Prop where
  /-- It has its number. -/
  id_eq : d.id = c.id
  /-- It has its subscription. -/
  bound_eq : d.bound = c.bound
  /-- As many pulls wait for it. -/
  waiting_eq : d.cursor.waiting = c.cursor.waiting
  /-- It has settings that are allowed. -/
  settings : c.cursor.settings.Becomes d.cursor.settings
  /-- It was last active then. -/
  lastActive_eq : d.cursor.lastActive = if active then now else c.cursor.lastActive

theorem Consumer.Stays.refl (now : Instant) (c : Consumer) : c.Stays now false c :=
  ⟨rfl, rfl, rfl, .refl _, rfl⟩

/-! ## Cursors -/

namespace Cursor

variable {x : Index} {c : Cursor}

/-- No pull changes how many pulls wait. -/
theorem pullInvariant_waiting (x : Index) (l : Limits) (now : Instant) (n : Nat) :
    PullInvariant x l now fun c _ => c.waiting = n where
  givenUp h := h
  repeated h _ _ := h
  delivered h _ _ _ := by
    rw [deliver]
    dsimp only
    split <;> exact h
  settled h := h
  refused h _ := h
  ended h := h
  floor h := h

theorem dropRemoved_kept (c : Cursor) (x : Index) : (c.dropRemoved x).waiting = c.waiting ∧
    (c.dropRemoved x).settings = c.settings := by
  rw [dropRemoved]
  split <;> exact ⟨rfl, rfl⟩

/-- A consumer that collects is active now. -/
theorem collect_kept (c : Cursor) (x : Index) (l : Limits) (now : Instant) :
    (c.collect x l now).1.waiting = c.waiting ∧
      (c.collect x l now).1.settings = c.settings ∧
      (c.collect x l now).1.lastActive = now := by
  obtain ⟨hwaiting, hsettings⟩ := c.dropRemoved_kept x
  have hkept := (pullInvariant_kept x l now { c.dropRemoved x with lastActive := now }).collect
    (c := c) ⟨rfl, rfl⟩
  exact ⟨(pullInvariant_waiting x l now c.waiting).collect hwaiting,
    hkept.1.trans hsettings, hkept.2⟩

/-- A consumer that acknowledges is active now. -/
theorem acknowledge_kept (c : Cursor) (n : Nat) (kind : AckKind) (now : Instant) :
    (c.acknowledge n kind now).2.waiting = c.waiting ∧
      (c.acknowledge n kind now).2.settings = c.settings ∧
      (c.acknowledge n kind now).2.lastActive = now := by
  simp only [acknowledge, settle]
  split <;> exact ⟨rfl, rfl, rfl⟩

end Cursor

namespace Stream

variable {s s' t : Stream} {b b' : Backend} {clock : Clock} {c d : Consumer} {id : Nat}

/-! ## Consumers that stay -/

/-- The consumers of a stream stay, except for those that are deleted. -/
def Retains (s : Stream) (now : Instant) (active : Nat → Bool) (s' : Stream) : Prop :=
  ∀ d ∈ s'.consumers, ∃ c ∈ s.consumers, c.Stays now (active c.id) d

namespace Retains

variable {now : Instant} {active : Nat → Bool}

theorem of_sublist (h : s'.consumers.Sublist s.consumers) :
    s.Retains now (fun _ => false) s' := fun d hd =>
  ⟨d, h.subset hd, .refl now d⟩

theorem of_sameStaff (h : s.SameStaff s') : s.Retains now (fun _ => false) s' := by
  rcases h with h | h
  · exact of_sublist (h ▸ List.Sublist.refl _)
  · intro d hd
    rw [h] at hd
    obtain ⟨c, hc, rfl⟩ := List.mem_map.1 hd
    exact ⟨c, hc, rfl, rfl, rfl, .refl _, rfl⟩

/-- One consumer becomes what it may. -/
theorem of_modifyConsumer {f : Consumer → Consumer}
    (h : s'.consumers = (s.modifyConsumer id f).consumers)
    (hf : ∀ c ∈ s.consumers, c.id = id → c.Stays now (active c.id) (f c))
    (hothers : ∀ i ≠ id, active i = false) : s.Retains now active s' := by
  intro d hd
  rw [h] at hd
  obtain ⟨c, hc, rfl⟩ := List.mem_map.1 hd
  refine ⟨c, hc, ?_⟩
  split
  · next heq => exact hf c hc (beq_iff_eq.1 heq)
  · next hne =>
    rw [hothers c.id (fun heq => hne (beq_iff_eq.2 heq))]
    exact .refl now c

end Retains

/-- A consumer is new, with nothing noted of it but that it is there. -/
structure Welcomes (s : Stream) (now : Instant) (id : Nat) (s' : Stream) : Prop where
  /-- The others stay, and the new one has the number. -/
  consumers : ∀ d ∈ s'.consumers, d ∈ s.consumers ∨
    d.id = id ∧ d.bound = false ∧ d.cursor.waiting = 0 ∧ d.cursor.lastActive = now ∧
      d.cursor.settings.IsAccepted

/-! ## Operations -/

/-- A consumer is new, or the consumers stay. -/
theorem stays_upsertConsumer (hs : s.Roster) {mode : UpsertMode} {madeUp : String}
    {defaults : BrokerSettings} {settings : ConsumerSettings} {reply : Except Error Nat}
    (h : s.upsertConsumer mode id madeUp defaults settings clock b = (reply, s', b'))
    (hreply : reply ≠ .error .numbersExhausted) :
    s.Retains clock.elapsed (fun _ => false) s' ∨ s.Welcomes clock.elapsed id s' := by
  rcases upsertConsumer_cases h with ⟨rfl, -⟩ | ⟨name, wanted, -, hchecked, hwanted, -, hadd⟩ |
    ⟨c, wanted, changed, hc, hchecked, hwanted, hchange, -, hchanged, rfl⟩
  · exact .inl (.of_sameStaff (.inl rfl))
  · have hs' := (Prod.mk.inj (addConsumer_eq_ok hadd)).2
    refine .inr ⟨fun d hd => ?_⟩
    rw [hs'] at hd
    rcases List.mem_append.1 hd with hd | hd
    · exact .inl hd
    · obtain rfl := List.mem_singleton.1 hd
      exact .inr ⟨rfl, rfl, rfl, rfl, settings, some name, defaults,
        (checkConsumer_eq_ok hchecked).1, hwanted⟩
  · refine .inl ?_
    rcases changeConsumer_cases hchanged with ⟨rfl, -⟩ | ⟨t, u, rfl, hrelease, rfl, rfl⟩
    · exact absurd rfl hreply
    · have hconsumers := consumers_releaseUnclaimed hrelease (by simp)
      refine .of_modifyConsumer (consumers_modifyConsumer_notify hconsumers fun _ => rfl)
        (fun d hd heq => ?_) fun _ _ => rfl
      -- The one that was changed is known by its number.
      obtain rfl := hs.eq_of_id hd (List.mem_of_find?_eq_some hc) heq
      exact ⟨rfl, rfl, rfl, Or.inr ⟨settings, some _, defaults, d.name,
        (checkConsumer_eq_ok hchecked).1, hwanted, hchange⟩, rfl⟩

theorem stays_collect (hs : s.Roster) (hc : c ∈ s.consumers) {l : Cursor.Limits}
    {reply : Except Error Collected} (h : s.collect c l clock b = (reply, s', b'))
    (hreply : reply ≠ .error .numbersExhausted) :
    s.Retains clock.elapsed (fun i => c.id == i) s' := by
  rcases collect_cases h with ⟨rfl, -⟩ | ⟨t, rfl, hhand⟩
  · exact absurd rfl hreply
  · rcases handOut_cases hhand with ⟨rfl, -⟩ | ⟨u, rfl, rfl, -⟩
    · exact absurd rfl hreply
    · refine .of_modifyConsumer rfl (fun d hd heq => ?_) fun i hi => beq_eq_false_iff_ne.2 hi.symm
      obtain rfl := hs.eq_of_id hd hc heq
      obtain ⟨hwaiting, hsettings, hactive⟩ := d.cursor.collect_kept
        (Retention.expire s.settings clock.wall s.index).2 l clock.elapsed
      refine ⟨rfl, rfl, hwaiting, Or.inl hsettings, hactive.trans ?_⟩
      simp

/-- A pull that does not limit octets is not refused once it collects. -/
theorem collect_ok {n : Nat} {reply : Except Error Collected}
    (h : s.collect c { batch := n } clock b = (reply, s', b'))
    (hreply : reply ≠ .error .numbersExhausted) : ∃ collected, reply = .ok collected := by
  rcases collect_cases h with ⟨rfl, -⟩ | ⟨t, rfl, hhand⟩
  · exact absurd rfl hreply
  · have hnone (x : Index) :
        oversizedError (c.cursor.collect x { batch := n } clock.elapsed).2 = none := by
      rw [oversizedError, Cursor.oversized_collect]
      split <;> rfl
    simp only [handOut, hnone] at hhand
    split at hhand
    · next e _ hreduce =>
      cases hhand
      rcases reduce_cases _ _ with ⟨_, heq⟩ | heq
      · cases hreduce.symm.trans heq
        exact absurd rfl hreply
      · cases hreduce.symm.trans heq
    · cases hhand
      exact ⟨_, rfl⟩

theorem stays_acknowledge (hs : s.Roster) (hc : c ∈ s.consumers) {n : Nat} {kind : AckKind}
    {reply : Except Error Unit} (h : s.acknowledge c n kind clock b = (reply, s', b'))
    (htakes : s'.takesAcks = true) : s.Retains clock.elapsed (fun i => c.id == i) s' := by
  rcases acknowledge_cases h with
    ⟨rfl, -, hstuck⟩ | ⟨hstuck, -⟩ | ⟨t, u, settled, -, ht, hu, rfl, -⟩
  · rw [hstuck] at htakes
    cases htakes
  · rw [hstuck] at htakes
    cases htakes
  · have hconsumers : u.consumers = (s.modifyConsumer c.id
        (·.mapCursor fun _ => (c.cursor.acknowledge n kind clock.elapsed).2)).consumers := by
      rw [hu, ht]
    refine .of_modifyConsumer (consumers_modifyConsumer_notify hconsumers fun _ => rfl)
      (fun d hd heq => ?_) fun i hi => beq_eq_false_iff_ne.2 hi.symm
    obtain rfl := hs.eq_of_id hd hc heq
    obtain ⟨hwaiting, hsettings, hactive⟩ := d.cursor.acknowledge_kept n kind clock.elapsed
    refine ⟨rfl, rfl, hwaiting, Or.inl hsettings, hactive.trans ?_⟩
    simp

end Stream

/-- **An operation leaves what is noted of consumers**, except that the one that does it is active
now, or a consumer is new. -/
theorem StreamOp.stays_run {s s' : Stream} {b b' : Backend} {op : StreamOp} {clock : Clock}
    {reply : Except Error StreamReply} (hs : s.Roster) (hattend : ∀ id a, op ≠ .attend id a)
    (h : op.run clock s b = (reply, s', b')) (hreply : reply ≠ .error .numbersExhausted) :
    s.Retains clock.elapsed (fun i => op.isDoneBy i) s' ∨
      ∃ mode id madeUp defaults settings,
        op = .upsertConsumer mode id madeUp defaults settings ∧ s.Welcomes clock.elapsed id s' := by
  cases outcome_run h with
  | publish hr =>
    exact .inl (.of_sameStaff (Stream.sameStaff_publish hr (ne_exhausted_of_map hreply)))
  | deleteMessage hr =>
    exact .inl (.of_sameStaff (Stream.sameStaff_deleteMessage hr (ne_exhausted_of_map hreply)))
  | purge hr => exact .inl (.of_sameStaff (Stream.sameStaff_purge hr (ne_exhausted_of_map hreply)))
  | evict hr =>
    exact .inl (.of_sameStaff (.inl (Stream.consumers_evict hr (ne_exhausted_of_map hreply))))
  | changeSettings hr =>
    exact .inl (.of_sameStaff (Stream.sameStaff_changeSettings hr (ne_exhausted_of_map hreply)))
  | upsertConsumer hr =>
    exact (Stream.stays_upsertConsumer hs hr (ne_exhausted_of_map hreply)).imp_right fun hnew =>
      ⟨_, _, _, _, _, rfl, hnew⟩
  | deleteConsumer hr =>
    exact .inl (.of_sublist (Stream.consumers_deleteConsumer hr (ne_exhausted_of_map hreply)))
  | sweep hr => exact .inl (.of_sublist (Stream.consumers_sweep hr (ne_exhausted_of_map hreply)))
  | @collect id c l r _ _ hc hr =>
    obtain rfl : c.id = id := by simpa using List.find?_some hc
    exact .inl (Stream.stays_collect hs (List.mem_of_find?_eq_some hc) hr
      (ne_exhausted_of_map hreply))
  | @acknowledge id n c kind r _ _ hc hr htakes =>
    obtain rfl : c.id = id := by simpa using List.find?_some hc
    exact .inl (Stream.stays_acknowledge hs (List.mem_of_find?_eq_some hc) hr htakes)
  | acknowledgeStuck => exact absurd rfl hreply
  | attend => exact absurd rfl (hattend _ _)
  -- Where the consumer is gone there is nobody that does the operation.
  | collectNone hnone | acknowledgeNone hnone =>
    refine .inl fun d hd => ⟨d, hd, rfl, rfl, rfl, .refl _, ?_⟩
    refine (if_neg fun heq => ?_).symm
    exact List.find?_eq_none.1 hnone d hd (beq_iff_eq.2 (beq_iff_eq.1 heq).symm)

/-! ## Sweeping -/

namespace Stream

variable {s s' : Stream} {b b' : Backend} {clock : Clock}

/-- Of the consumers just the one with the name is deleted. -/
theorem consumers_deleteConsumer_eq {name : String} {reply : Except Error Unit}
    (h : s.deleteConsumer name b = (reply, s', b')) (hreply : reply ≠ .error .numbersExhausted) :
    s'.consumers = s.consumers.filter fun d => d.name != name := by
  rw [deleteConsumer] at h
  split at h
  · next hnone =>
    cases h
    refine (List.filter_eq_self.2 fun d hd => ?_).symm
    simpa using List.find?_eq_none.1 hnone d hd
  · exact consumers_releaseUnclaimed h hreply

theorem consumers_deleteConsumers_eq {names : List String} {reply : Except Error Unit}
    (h : s.deleteConsumers names b = (reply, s', b')) (hreply : reply ≠ .error .numbersExhausted) :
    s'.consumers = s.consumers.filter fun d => !names.contains d.name := by
  induction names generalizing s b with
  | nil =>
    cases h
    simp
  | cons name names ih =>
    rcases deleteConsumers_cons_cases h with ⟨rfl, -⟩ | ⟨r, t, b₁, hdelete, hr, hrest⟩
    · exact absurd rfl hreply
    · rw [ih hrest, consumers_deleteConsumer_eq hdelete hr, List.filter_filter]
      refine List.filter_congr fun d _ => ?_
      simp only [List.contains_cons, bne, Bool.not_or]
      exact Bool.and_comm _ _

/-- **A sweep deletes just the consumers that have done nothing for too long.** -/
theorem consumers_sweep_eq (hs : s.Roster) {reply : Except Error Unit}
    (h : s.sweep clock b = (reply, s', b')) (hreply : reply ≠ .error .numbersExhausted) :
    s'.consumers = s.consumers.filter fun c => !isAbandoned clock.elapsed c := by
  rw [sweep] at h
  split at h
  · next e t b₁ hevict =>
    rcases evict_cases hevict with ⟨herror, -⟩ | ⟨hok, -⟩
    · cases herror
      cases h
      exact absurd rfl hreply
    · cases hok
  · next t b₁ hevict =>
    rw [consumers_deleteConsumers_eq h hreply, consumers_evict hevict (by simp)]
    refine List.filter_congr fun c hc => congrArg _ ?_
    -- The name of a consumer is that of no other.
    rw [Bool.eq_iff_iff, List.contains_iff_mem, List.mem_map]
    constructor
    · rintro ⟨d, hd, heq⟩
      obtain ⟨hd, habandoned⟩ := List.mem_filter.1 hd
      exact hs.eq_of_name hd hc heq ▸ habandoned
    · exact fun habandoned => ⟨c, List.mem_filter.2 ⟨hc, habandoned⟩, rfl⟩

end Stream

end StreamBroker
