import StreamBroker.Proofs.Stream.LogStep

/-!
# Every operation is steps of the log

The operations of consumers take messages from the index by the same removals as all others, so
they are steps of the log as well.  With them every operation is, and a publish that is accepted is
the only one that stores a message, under the number that it is answered with.

## Main results

* `StreamOp.ends_run`: every operation is steps of the log
* `Stream.moves_of_open?`: a stream that is opened begins with the index that was read back
-/

namespace StreamBroker

namespace Stream

variable {s s' t : Stream} {b b' : Backend}

/-! ## Consumers -/

theorem moves_modifyConsumer (s : Stream) (id : Nat) (f : Consumer → Consumer) (b : Backend) :
    s.Moves b [] (s.modifyConsumer id f) b := .of_index_eq rfl rfl

theorem ends_changeConsumer {c : Consumer} {settings : ConsumerSettings}
    {reply : Except Error Unit} (h : s.changeConsumer c settings b = (reply, s', b')) :
    s.Ends b [] reply s' b' := by
  rcases changeConsumer_cases h with ⟨rfl, rfl⟩ | ⟨t, u, rfl, hrelease, rfl, rfl⟩
  · exact .untouched s s' _
  · -- A filter that is narrower than before may need fewer messages, which go at once.
    have hchange := moves_modifyConsumer s c.id (·.mapCursor ({ · with settings })) b
    have hmoves := hchange.trans ((ends_releaseUnclaimed hrelease).moves (by simp))
    exact .moved (hmoves.trans_of_index_eq rfl rfl)

theorem ends_upsertConsumer {mode : UpsertMode} {id : Nat} {madeUp : String}
    {defaults : BrokerSettings} {settings : ConsumerSettings} {clock : Clock}
    {reply : Except Error Nat}
    (h : s.upsertConsumer mode id madeUp defaults settings clock b = (reply, s', b')) :
    s.Ends b [] reply s' b' := by
  rcases upsertConsumer_cases h with ⟨rfl, rfl⟩ | ⟨name, wanted, -, -, -, rfl, hadd⟩ |
    ⟨c, wanted, changed, -, -, -, -, -, hchange, rfl⟩
  · exact .refl _ _ _
  · have hs := addConsumer_eq_ok hadd
    cases hs
    exact .moved (.of_index_eq rfl rfl)
  · exact (ends_changeConsumer hchange).map _

theorem ends_deleteConsumer {name : String} {reply : Except Error Unit}
    (h : s.deleteConsumer name b = (reply, s', b')) : s.Ends b [] reply s' b' := by
  rcases deleteConsumer_cases h with ⟨rfl, rfl⟩ | ⟨t, hindex, hsettings, -, hrelease⟩
  · exact .refl _ _ _
  · have hfixed : t.fixed = s.fixed := by rw [fixed, fixed, journal?, journal?, hsettings]
    exact .of_moves_trans (.of_index_eq hindex hfixed) (ends_releaseUnclaimed hrelease)

/-! ## Handing out and acknowledging -/

/-- What expired before a hand-out and what is settled by it goes from the journal at once. -/
theorem ends_handOut {id : Nat} {cursor : Cursor} {haul : Cursor.Haul} {expired : List Nat}
    {reply : Except Error Collected} (hexpired : s.index.Loses expired t.index)
    (hfixed : t.fixed = s.fixed) (h : t.handOut id cursor haul expired b = (reply, s', b')) :
    s.Ends b [] reply s' b' := by
  rcases handOut_cases h with ⟨rfl, rfl⟩ | ⟨u, rfl, rfl, rfl⟩
  · exact .untouched s s' _
  · -- Both removals are one step: their calls are made together, once the index is as it will be.
    have hloses := hexpired.trans (loses_releasing
      (t.modifyConsumer id (·.mapCursor fun _ => cursor)) haul.settled t.index)
    have hjournal : t.journal? = s.journal? := congrArg Prod.fst hfixed
    refine .moved ⟨?_, hfixed⟩
    rw [forget, discard_eq]
    exact hjournal ▸ .single (.lose hloses)

theorem ends_collect {c : Consumer} {l : Cursor.Limits} {clock : Clock}
    {reply : Except Error Collected} (h : s.collect c l clock b = (reply, s', b')) :
    s.Ends b [] reply s' b' := by
  rcases collect_cases h with ⟨rfl, rfl⟩ | ⟨t, ht, hhand⟩
  · exact .untouched s s' _
  · have hexpired : s.index.Loses (Retention.expire s.settings clock.wall s.index).1 t.index := by
      rw [ht]
      exact Retention.loses_expire s.settings clock.wall s.index
    exact ends_handOut hexpired (ht ▸ rfl) hhand

/-- An acknowledgement that runs out of numbers is the last one that a stream takes. -/
theorem moves_acknowledge {c : Consumer} {n : Nat} {kind : AckKind} {clock : Clock}
    {reply : Except Error Unit} (h : s.acknowledge c n kind clock b = (reply, s', b')) :
    s.Moves b [] s' b' ∨ s'.takesAcks = false ∧ b' = b := by
  rcases acknowledge_cases h with ⟨rfl, rfl, -⟩ | hstuck | ⟨t, u, settled, -, ht, rfl, rfl, rfl⟩
  · exact .inl (.refl _ _)
  · exact .inr hstuck
  · have hnoted : s.Moves b [] t b := ht ▸ moves_modifyConsumer s c.id _ b
    have hmoves := hnoted.trans (moves_discard (loses_releasing t settled t.index) b)
    exact .inl (hmoves.trans_of_index_eq rfl rfl)

/-! ## Sweeping -/

theorem ends_deleteConsumers {names : List String} {reply : Except Error Unit}
    (h : s.deleteConsumers names b = (reply, s', b')) : s.Ends b [] reply s' b' := by
  induction names generalizing s b reply with
  | nil =>
    cases h
    exact .refl _ _ _
  | cons name names ih =>
    -- A consumer that is deleted with an error does not keep the others from being deleted, unless
    -- the numbers ran out.
    rcases deleteConsumers_cons_cases h with ⟨rfl, hd⟩ | ⟨r, t, b₁, hd, hr, hrest⟩
    · exact ends_deleteConsumer hd
    · exact .of_moves_trans ((ends_deleteConsumer hd).moves hr) (ih hrest)

theorem ends_sweep {clock : Clock} {reply : Except Error Unit}
    (h : s.sweep clock b = (reply, s', b')) : s.Ends b [] reply s' b' := by
  rcases sweep_cases h with ⟨rfl, rfl⟩ | ⟨t, b₁, names, hevict, hdelete⟩
  · exact .untouched s s' _
  · exact .of_moves_trans ((ends_evict hevict).moves (by simp)) (ends_deleteConsumers hdelete)

/-! ## Opening -/

/-- Without a journal nothing is given back. -/
theorem reread_unjournaled {settings : StreamSettings} (h : settings.journal? = none) :
    reread settings b = (.ok Index.empty, b) := by
  have hmemory : settings.storage = .memory := by
    cases hstorage : settings.storage with
    | memory => rfl
    | file =>
      rw [StreamSettings.journal?, if_pos hstorage] at h
      cases h
  simp only [reread, recovered, hmemory]
  rfl

/-- A stream that is opened begins with the index that was read back, of which its settings take
away what they do not allow. -/
theorem moves_of_open? {id : Nat} {settings : StreamSettings} {clock : Clock}
    (h : open? id settings clock b = (.ok s, b')) :
    ∃ x b₁, reread settings b = (.ok x, b₁) ∧ s.settings = settings ∧
      LogRun settings.journal? x b₁ [] s.index b' := by
  obtain ⟨x, b₁, hread, rfl, rfl⟩ := open?_eq_ok h
  refine ⟨x, b₁, hread, rfl, ?_⟩
  -- What settings do not allow goes before the stream is seen, and from the journal as well.
  rw [forget, discard_eq]
  exact .single (.lose (loses_prune settings clock.wall x))

/-- Whether or not a stream comes to be opened, its journal is read back or not, and then what
settings do not allow goes from it. -/
theorem open?_cases {id : Nat} {settings : StreamSettings} {clock : Clock}
    {reply : Except Error Stream} (h : open? id settings clock b = (reply, b')) :
    (∃ e, reread settings b = (.error e, b')) ∨
      ∃ x b₁, reread settings b = (.ok x, b₁) ∧
        LogRun settings.journal? x b₁ [] (prune settings clock.wall x).2 b' := by
  simp only [open?] at h
  cases hrecovered : recovered settings b with
  | mk result b₁ =>
    rw [hrecovered] at h
    cases result with
    | error e =>
      cases h
      exact .inl ⟨e, by simp only [reread, hrecovered]⟩
    | ok r =>
      dsimp only at h
      split at h
      · next hlt =>
        cases h
        exact .inl ⟨.numbersExhausted, by simp only [reread, hrecovered, if_pos hlt]⟩
      · next hlt =>
        -- What is not allowed goes from the index at once, and then from the journal.
        refine .inr ⟨Index.restore r.messages r.watermark, b₁,
          by simp only [reread, hrecovered, if_neg hlt], ?_⟩
        obtain ⟨-, rfl⟩ := Prod.mk.inj h
        rw [discard_eq]
        exact .single (.lose (loses_prune settings clock.wall _))

/-- What was read back is opened without what settings do not allow, if the journal lets go of
that. -/
theorem open?_of_reread {id : Nat} {settings : StreamSettings} {clock : Clock} {x : Index}
    (h : reread settings b = (.ok x, b')) :
    open? id settings clock b =
      let gone := (prune settings clock.wall x).1
      let s : Stream :=
        { id, settings, created := clock.wall, index := (prune settings clock.wall x).2 }
      ((s.discard gone b').1.map fun _ => s, (s.discard gone b').2) := by
  simp only [reread] at h
  split at h
  · cases h
  · next r b₁ hrecovered =>
    split at h
    · cases h
    · next hlt =>
      cases h
      simp only [open?, hrecovered, if_neg hlt]

/-- When settings take nothing away, a stream is opened with all that was read back. -/
theorem open?_of_prune_eq {id : Nat} {settings : StreamSettings} {clock : Clock} {x : Index}
    (h : reread settings b = (.ok x, b')) (hprune : prune settings clock.wall x = ([], x)) :
    open? id settings clock b =
      (.ok { id, settings, created := clock.wall, index := x }, b') := by
  rw [open?_of_reread h, hprune]
  simp only [discard_nil]
  rfl

end Stream

/-! ## Operations -/

namespace StreamOp

variable {s s' : Stream} {b b' : Backend} {op : StreamOp} {clock : Clock}
  {reply : Except Error StreamReply}

theorem assigned_map {α : Type} {f : α → StreamReply} (hf : ∀ a n, f a ≠ .stored n)
    (s : Stream) (op : StreamOp) (r : Except Error α) :
    (StreamEvent.operated s op (r.map f)).assigned = none := by
  cases r with
  | error e => rfl
  | ok a =>
    have ha := hf a
    rw [Except.map]
    cases hfa : f a with
    | stored n => exact absurd hfa (ha n)
    | _ => rfl

/-- An operation that gives no number is steps that store no message. -/
theorem ends_map {α : Type} {f : α → StreamReply} {r : Except Error α} (op : StreamOp)
    (hf : ∀ a n, f a ≠ .stored n) (h : s.Ends b [] r s' b') :
    ∃ ms, s.Ends b ms (r.map f) s' b' ∧
      ms.map (·.sequence) = (StreamEvent.operated s op (r.map f)).assigned.toList := by
  refine ⟨[], h.map f, ?_⟩
  rw [assigned_map hf]
  rfl

/-- **Every operation is steps of the log**, and the messages that these store are those that the
operation gave numbers to. -/
theorem ends_run (hclock : clock.IsDated) (hop : op.IsProper s)
    (h : op.run clock s b = (reply, s', b')) :
    ∃ ms, s.Ends b ms reply s' b' ∧
      ms.map (·.sequence) = (StreamEvent.operated s op reply).assigned.toList := by
  cases outcome_run h with
  -- Only a publish stores a message.
  | publish hr =>
    rcases Stream.ends_publish hclock hr with ⟨stored, -, hok, hmoves⟩ | ⟨⟨error, herror⟩, hends⟩
    · exact ⟨[stored], .moved hmoves, by rw [hok]; rfl⟩
    · exact ⟨[], hends.map _, by rw [herror]; rfl⟩
  | deleteMessage hr => exact ends_map _ (by simp) (Stream.ends_deleteMessage hr)
  | purge hr => exact ends_map _ (by simp) (Stream.ends_purge hr)
  | evict hr => exact ends_map _ (by simp) (Stream.ends_evict hr)
  | changeSettings hr =>
    obtain ⟨-, hname, hfixed⟩ := hop
    exact ends_map _ (by simp) (Stream.ends_changeSettings hname hfixed hr)
  | upsertConsumer hr => exact ends_map _ (by simp) (Stream.ends_upsertConsumer hr)
  | deleteConsumer hr => exact ends_map _ (by simp) (Stream.ends_deleteConsumer hr)
  | collect hc hr => exact ends_map _ (by simp) (Stream.ends_collect hr)
  | acknowledge hc hr htakes =>
    rcases Stream.moves_acknowledge hr with hmoves | ⟨hstuck, -⟩
    · exact ends_map _ (by simp) (.moved hmoves)
    · rw [hstuck] at htakes
      cases htakes
  | acknowledgeStuck hr =>
    refine ⟨[], .stuck ?_, rfl⟩
    rcases Stream.moves_acknowledge hr with hmoves | ⟨-, rfl⟩
    · exact hmoves.reaches
    · exact (Stream.Moves.refl s _).reaches
  | sweep hr => exact ends_map _ (by simp) (Stream.ends_sweep hr)
  | attend => exact ⟨[], .moved (Stream.moves_modifyConsumer s _ _ b), rfl⟩
  -- A consumer that does not exist has nothing done for it.
  | collectNone => exact ⟨[], .refl _ _ _, rfl⟩
  | acknowledgeNone => exact ⟨[], .refl _ _ _, rfl⟩

theorem moves_run (hclock : clock.IsDated) (hop : op.IsProper s)
    (h : op.run clock s b = (reply, s', b')) (hreply : reply ≠ .error .numbersExhausted) :
    ∃ ms, s.Moves b ms s' b' ∧
      ms.map (·.sequence) = (StreamEvent.operated s op reply).assigned.toList := by
  obtain ⟨ms, hends, hms⟩ := ends_run hclock hop h
  exact ⟨ms, hends.moves hreply, hms⟩

/-- The messages that an operation stores have the numbers that it gave, and the time of its
clock. -/
theorem moves_run_stamped (hclock : clock.IsDated) (hop : op.IsProper s)
    (h : op.run clock s b = (reply, s', b')) (hreply : reply ≠ .error .numbersExhausted) :
    ∃ ms, s.Moves b ms s' b' ∧ ms.map (fun m => (m.sequence, m.timestamp)) =
      (StreamEvent.operated s op reply).assigned.toList.map fun n =>
        (n, clock.wall.toMicro) := by
  cases hassigned : (StreamEvent.operated s op reply).assigned with
  | none =>
    obtain ⟨ms, hmoves, hms⟩ := moves_run hclock hop h hreply
    rw [hassigned] at hms
    obtain rfl := List.map_eq_nil_iff.1 hms
    exact ⟨[], hmoves, rfl⟩
  | some n =>
    -- Only a publish stores a message.
    obtain rfl := StreamEvent.assigned_operated.1 hassigned
    obtain ⟨maxPayload, e, m, -, hpublish⟩ := publish_of_stored h
    rcases Stream.ends_publish hclock hpublish with ⟨stored, htime, hok, hmoves⟩ | ⟨⟨_, herror⟩, -⟩
    · obtain rfl := Except.ok.inj hok
      exact ⟨[stored], hmoves, by rw [← htime]; rfl⟩
    · cases herror

/-- The messages that an operation stores are of the present. -/
theorem moves_run_present (hclock : clock.IsDated) (hop : op.IsProper s)
    (h : op.run clock s b = (reply, s', b')) (hreply : reply ≠ .error .numbersExhausted) :
    ∃ ms, s.Moves b ms s' b' ∧ ∀ m ∈ ms, m.timestamp = clock.wall.toMicro := by
  obtain ⟨ms, hmoves, hms⟩ := moves_run_stamped hclock hop h hreply
  refine ⟨ms, hmoves, fun m hm => ?_⟩
  have hstamp := List.mem_map_of_mem (f := fun m => (m.sequence, m.timestamp)) hm
  rw [hms] at hstamp
  obtain ⟨n, -, heq⟩ := List.mem_map.1 hstamp
  exact (congrArg Prod.snd heq).symm

end StreamOp

end StreamBroker
