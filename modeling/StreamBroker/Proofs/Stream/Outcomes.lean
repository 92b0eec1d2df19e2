import StreamBroker.Broker.Registry
import StreamBroker.Proofs.Except
import StreamBroker.Proofs.Index.Coherent
import StreamBroker.Proofs.Stream.Life

/-!
# What operations come to

Each operation on a stream is taken apart once: what it may be answered with, and what the stream
and the backend are like then in terms of the operations that it is made of.  Where an operation
runs out of numbers only its backend is spoken of, as nobody sees what becomes of the stream.

## Main definitions

* `Stream.reread`: the index that a journal gives back
* `StreamOp.Outcome`: an operation as the function of the stream that it calls

## Main results

* `Stream.reduce_cases`, `Stream.reduceAll_cases`: what is taken from the index of a stream
* `Stream.publish_cases`, `Stream.storeMessage_cases`: how a message is accepted
* `Stream.purge_cases`, `Stream.deleteMessage_cases`, …: the other operations on the log
* `Stream.open?_eq_ok`: what a stream begins with
* `Stream.collect_cases`, `Stream.acknowledge_cases`, …: the operations of consumers
* `StreamOp.outcome_run`: every operation is one of these, or has no consumer to be made for
-/

namespace StreamBroker

namespace Stream

variable {s s' : Stream} {b b' : Backend}

/-! ## What leaves -/

/-- What is taken from the index of a stream is what a function takes, unless the first number has
nowhere to go. -/
theorem reduce_cases (s : Stream) (f : Index → List Nat × Index) :
    (∃ t, s.reduce f = (.error .numbersExhausted, t)) ∨
      s.reduce f = (.ok (f s.index).1, { s with index := (f s.index).2 }) := by
  simp only [reduce]
  split
  · exact .inl ⟨_, rfl⟩
  · exact .inr rfl

theorem reduceAll_cases {f : Index → List Nat × Index} {reply : Except Error Unit}
    (h : s.reduceAll f b = (reply, s', b')) :
    (reply = .error .numbersExhausted ∧ b' = b) ∨
      (reply = .ok () ∧ s' = { s with index := (f s.index).2 } ∧
        b' = s'.forget (f s.index).1 b) := by
  rw [reduceAll] at h
  rcases s.reduce_cases f with ⟨t, hr⟩ | hr
  · rw [hr] at h
    cases h
    exact .inl ⟨rfl, rfl⟩
  · rw [hr] at h
    cases h
    exact .inr ⟨rfl, rfl, rfl⟩

theorem evict_cases {now : Timestamp} {reply : Except Error Unit}
    (h : s.evict now b = (reply, s', b')) :
    (reply = .error .numbersExhausted ∧ b' = b) ∨
      (reply = .ok () ∧ s' = { s with index := (Retention.expire s.settings now s.index).2 } ∧
        b' = s'.forget (Retention.expire s.settings now s.index).1 b) :=
  reduceAll_cases h

/-- Only a stream that keeps what is needed lets go what is not. -/
theorem releaseUnclaimed_cases {reply : Except Error Unit}
    (h : s.releaseUnclaimed b = (reply, s', b')) :
    (reply = .error .numbersExhausted ∧ b' = b) ∨
    (s.settings.retention ≠ .interest ∧ reply = .ok () ∧ s' = s ∧ b' = b) ∨
    (reply = .ok () ∧
      s' = { s with index := (Retention.releaseUnclaimed s.isNeeded s.index).2 } ∧
      b' = s'.forget (Retention.releaseUnclaimed s.isNeeded s.index).1 b) := by
  rw [releaseUnclaimed] at h
  split at h
  · rcases reduceAll_cases h with hstuck | hdone
    · exact .inl hstuck
    · exact .inr (.inr hdone)
  · next hne =>
    cases h
    exact .inr (.inl ⟨hne, rfl, rfl, rfl⟩)

/-! ## Publishing -/

/-- A message cannot be written, or it is written and then in the index, where something may go for
it. -/
theorem storeMessage_cases {m : StoredMessage} {reply : Except Error Nat}
    (h : s.storeMessage m b = (reply, s', b')) :
    (∃ e, s.write m b = (.error e, b') ∧ reply = .error e ∧ s' = s) ∨
      ∃ b₁, s.write m b = (.ok (), b₁) ∧
        ((reply = .error .numbersExhausted ∧ b' = b₁) ∨
          ∃ t, t = announce { s with index := (s.makeRoom m (s.index.commit m)).2 } m ∧
            reply = .ok m.sequence ∧ s' = t.notifyAll ∧
              b' = t.forget (s.makeRoom m (s.index.commit m)).1 b₁) := by
  rw [storeMessage] at h
  split at h
  · next e b₁ hw =>
    cases h
    exact .inl ⟨e, hw, rfl, rfl⟩
  · next b₁ hw =>
    refine .inr ⟨b₁, hw, ?_⟩
    -- The message is written by now, whatever becomes of it in the index.
    simp only [accept] at h
    rcases reduce_cases { s with index := s.index.commit m }
      (makeRoom { s with index := s.index.commit m } m) with ⟨t, hr⟩ | hr
    · rw [hr] at h
      cases h
      exact .inl ⟨rfl, rfl⟩
    · rw [hr] at h
      cases h
      exact .inr ⟨_, rfl, rfl, rfl, rfl⟩

/-- A publish for another stream is refused at once.  Else what is too old goes before anything is
looked at, and then the message is refused, or stored if there is room and a number for it. -/
theorem publish_cases {maxPayload : Nat} {clock : Clock} {e : Expectations} {m : Message}
    {reply : Except Error Nat} (h : s.publish maxPayload clock e m b = (reply, s', b')) :
    ((∃ error, reply = .error error) ∧ s' = s ∧ b' = b) ∨
    (reply = .error .numbersExhausted ∧ b' = b) ∨
    ∃ t b₁, s.evict clock.wall.toMicro b = (.ok (), t, b₁) ∧
      (((∃ error, reply = .error error) ∧ s' = t ∧ b' = b₁) ∨
        (t.index.lastSeq + 1 < wordLimit ∧ t.index.checkRoom t.settings m.size = .ok () ∧
          t.storeMessage (m.stored (t.index.lastSeq + 1) clock.wall.toMicro) b₁ =
            (reply, s', b'))) := by
  -- The name that is expected is compared before anything else is done.
  have hstore (h : publish.store s maxPayload clock e m b = (reply, s', b')) :
      (reply = .error .numbersExhausted ∧ b' = b) ∨
      ∃ t b₁, s.evict clock.wall.toMicro b = (.ok (), t, b₁) ∧
        (((∃ error, reply = .error error) ∧ s' = t ∧ b' = b₁) ∨
          (t.index.lastSeq + 1 < wordLimit ∧ t.index.checkRoom t.settings m.size = .ok () ∧
            t.storeMessage (m.stored (t.index.lastSeq + 1) clock.wall.toMicro) b₁ =
              (reply, s', b'))) := by
    simp only [publish.store] at h
    split at h
    · next error t b₁ hevict =>
      cases h
      rcases evict_cases hevict with ⟨herror, rfl⟩ | ⟨hok, -⟩
      · cases herror
        exact .inl ⟨rfl, rfl⟩
      · cases hok
    · next t b₁ hevict =>
      refine .inr ⟨t, b₁, hevict, ?_⟩
      split at h
      · cases h
        exact .inl ⟨⟨_, rfl⟩, rfl, rfl⟩
      · next stored hprepare =>
        obtain ⟨hroom, hlt, rfl⟩ := Index.prepare_eq_ok hprepare
        exact .inr ⟨hlt, hroom, h⟩
  rw [publish] at h
  split at h
  · split at h
    · exact .inr (hstore h)
    · cases h
      exact .inl ⟨⟨_, rfl⟩, rfl, rfl⟩
  · exact .inr (hstore h)

/-! ## Removing -/

theorem deleteMessage_cases {n : Nat} {reply : Except Error Unit}
    (h : s.deleteMessage n b = (reply, s', b')) :
    (s' = s ∧ b' = b) ∨ (reply = .error .numbersExhausted ∧ b' = b) ∨
      (s' = { s with index := (s.index.removeAll [n]).2 } ∧
        b' = (s'.discard (s.index.removeAll [n]).1 b).2) := by
  rw [deleteMessage] at h
  split at h
  · refine .inr ?_
    rcases s.reduce_cases (·.removeAll [n]) with ⟨t, hr⟩ | hr
    · rw [hr] at h
      cases h
      exact .inl ⟨rfl, rfl⟩
    · rw [hr] at h
      cases h
      exact .inr ⟨rfl, rfl⟩
  · cases h
    exact .inl ⟨rfl, rfl⟩

/-- A purge is refused, or its selection goes from the index and then from the journal, and the
consumers hear of it if the journal did not fail. -/
theorem purge_cases {r : PurgeRequest} {reply : Except Error Nat}
    (h : s.purge r b = (reply, s', b')) :
    (s' = s ∧ b' = b ∧ ∃ e, reply = .error e) ∨ (reply = .error .numbersExhausted ∧ b' = b) ∨
      ∃ left t, s.index.purge r = .ok left ∧ t = { s with index := left.2 } ∧
        (s' = t ∨ s' = t.notifyAll) ∧ b' = (t.discard left.1 b).2 := by
  rw [purge] at h
  split at h
  · cases h
    exact .inl ⟨rfl, rfl, _, rfl⟩
  · cases hp : s.index.purge r with
    | error e =>
      rw [hp] at h
      cases h
      exact .inl ⟨rfl, rfl, _, rfl⟩
    | ok left =>
      refine .inr ?_
      simp only [hp] at h
      rcases s.reduce_cases fun _ => left with ⟨t, hr⟩ | hr
      · rw [hr] at h
        cases h
        exact .inl ⟨rfl, rfl⟩
      · rw [hr] at h
        refine .inr ⟨left, _, rfl, rfl, ?_⟩
        -- The index has changed by now, so a journal that fails only keeps the signals back.
        cases hd : discard { s with index := left.2 } left.1 b with
        | mk r b₁ =>
          simp only [hd] at h
          cases r with
          | error e =>
            cases h
            exact ⟨.inl rfl, rfl⟩
          | ok u =>
            cases h
            exact ⟨.inr rfl, rfl⟩

/-! ## Opening -/

/-- The index that the journal of a stream gives back, before its settings take anything away from
it.  When the number behind the last one does not exist there is none. -/
def reread (settings : StreamSettings) (b : Backend) : Except Error Index × Backend :=
  match recovered settings b with
  | (.error e, b) => (.error e, b)
  | (.ok r, b) =>
    let index := Index.restore r.messages r.watermark
    if wordLimit ≤ index.lastSeq + 1 then (.error .numbersExhausted, b) else (.ok index, b)

theorem lastSeq_of_reread {settings : StreamSettings} {x : Index}
    (h : reread settings b = (.ok x, b')) : x.lastSeq + 1 < wordLimit := by
  simp only [reread] at h
  split at h
  · cases h
  · split at h
    · cases h
    · next hlt =>
      cases h
      exact Nat.lt_of_not_le hlt

theorem filed_of_reread {settings : StreamSettings} {x : Index}
    (h : reread settings b = (.ok x, b')) : x.Filed := by
  simp only [reread] at h
  split at h
  · cases h
  · split at h
    · cases h
    · cases h
      exact Index.filed_restore ..

/-- What is left of a stream that is destroyed, whether its journal could be removed or not. -/
theorem eq_of_destroy {gone : Stream} {reply : Except Error Unit}
    (h : s.destroy b = (reply, gone, b')) :
    gone.id = s.id ∧ gone.consumers = [] ∧ gone.index = Index.empty ∧ gone.events = s.events := by
  rw [destroy] at h
  dsimp only at h
  split at h <;> cases h <;> exact ⟨rfl, rfl, rfl, rfl⟩

/-- A stream that is opened begins with what was read back, without what its settings do not allow,
and without consumers. -/
theorem open?_eq_ok {id : Nat} {settings : StreamSettings} {clock : Clock}
    (h : open? id settings clock b = (.ok s, b')) :
    ∃ x b₁, reread settings b = (.ok x, b₁) ∧
      s = { id, settings, created := clock.wall, index := (prune settings clock.wall x).2 } ∧
      b' = s.forget (prune settings clock.wall x).1 b₁ := by
  simp only [open?] at h
  split at h
  · cases h
  · next r b₁ hrecovered =>
    split at h
    · cases h
    · next hlt =>
      obtain ⟨hreply, rfl⟩ := Prod.mk.inj h
      obtain ⟨⟨⟩, -, rfl⟩ := except_map_eq_ok.1 hreply
      refine ⟨Index.restore r.messages r.watermark, b₁, ?_, rfl, rfl⟩
      simp only [reread, hrecovered, if_neg hlt]

/-! ## Settings -/

theorem checkFixed_eq_ok {current wanted : StreamSettings}
    (h : Broker.checkFixed current wanted = .ok ()) :
    wanted.storage = current.storage ∧ wanted.retention = current.retention := by
  rw [Broker.checkFixed] at h
  split at h
  · cases h
  · next hs =>
    split at h
    · cases h
    · next hr => exact ⟨(Classical.not_not.1 hs).symm, (Classical.not_not.1 hr).symm⟩

theorem changeSettings_cases {settings : StreamSettings} {clock : Clock}
    {reply : Except Error Unit} (h : s.changeSettings settings clock b = (reply, s', b')) :
    (reply = .error .numbersExhausted ∧ b' = b) ∨
      ∃ t : Stream, t = { s with settings, index := (trim settings clock.wall s.index).2 } ∧
        s' = t.notifyAll ∧ b' = t.forget (trim settings clock.wall s.index).1 b := by
  rw [changeSettings] at h
  rcases s.reduce_cases (trim settings clock.wall) with ⟨t, hr⟩ | hr
  · rw [hr] at h
    cases h
    exact .inl ⟨rfl, rfl⟩
  · rw [hr] at h
    cases h
    exact .inr ⟨_, rfl, rfl, rfl⟩

/-! ## Consumers -/

theorem changeConsumer_cases {c : Consumer} {settings : ConsumerSettings}
    {reply : Except Error Unit} (h : s.changeConsumer c settings b = (reply, s', b')) :
    (reply = .error .numbersExhausted ∧ b' = b) ∨
      ∃ t u, t = s.modifyConsumer c.id (·.mapCursor ({ · with settings })) ∧
        t.releaseUnclaimed b = (.ok (), u, b') ∧ reply = .ok () ∧
          s' = u.modifyConsumer c.id Consumer.notify := by
  simp only [changeConsumer] at h
  split at h
  · next hr =>
    cases h
    rcases releaseUnclaimed_cases hr with ⟨herror, rfl⟩ | ⟨-, hok, -⟩ | ⟨hok, -⟩
    · exact .inl ⟨herror, rfl⟩
    · cases hok
    · cases hok
  · next u b₁ hr =>
    cases h
    exact .inr ⟨_, u, rfl, hr, rfl, rfl⟩

theorem addConsumer_eq_ok {id : Nat} {name : String} {settings : ConsumerSettings} {clock : Clock}
    {r : Nat × Stream} (h : s.addConsumer id name settings clock = .ok r) :
    r = (id, { s with consumers := s.consumers ++
      [{ id, name, created := clock.wall,
         cursor := Cursor.start settings s.index clock.elapsed }] }) := by
  rw [addConsumer] at h
  obtain ⟨⟨⟩, -, h⟩ := except_bind_eq_ok.1 h
  split at h
  · cases h
  · cases h
    rfl

theorem checkDisjointFrom_of_addConsumer {id : Nat} {name : String} {settings : ConsumerSettings}
    {clock : Clock} {r : Nat × Stream} (h : s.addConsumer id name settings clock = .ok r) :
    s.checkDisjointFrom name settings.filter = .ok () := by
  rw [addConsumer] at h
  obtain ⟨⟨⟩, hdisjoint, -⟩ := except_bind_eq_ok.1 h
  exact hdisjoint

theorem checkConsumer_eq_ok {settings : ConsumerSettings} (h : s.checkConsumer settings = .ok ()) :
    settings.check = .ok () ∧ s.checkWorker settings = .ok () := by
  rw [checkConsumer] at h
  obtain ⟨⟨⟩, hcheck, h⟩ := except_bind_eq_ok.1 h
  obtain ⟨⟨⟩, -, h⟩ := except_bind_eq_ok.1 h
  exact ⟨hcheck, h⟩

/-- A consumer is left as it is, or created, or changed to settings that keep what is fixed. -/
theorem upsertConsumer_cases {mode : UpsertMode} {id : Nat} {madeUp : String}
    {defaults : BrokerSettings} {settings : ConsumerSettings} {clock : Clock}
    {reply : Except Error Nat}
    (h : s.upsertConsumer mode id madeUp defaults settings clock b = (reply, s', b')) :
    (s' = s ∧ b' = b) ∨
    (∃ name wanted, s.consumer? name = none ∧ s.checkConsumer settings = .ok () ∧
      wanted = { settings with name := some name }.withDefaults defaults ∧ b' = b ∧
      s.addConsumer id name wanted clock = .ok (id, s')) ∨
    (∃ c wanted changed, s.consumer? (settings.explicitName.getD madeUp) = some c ∧
      s.checkConsumer settings = .ok () ∧
      wanted = wantedSettings { settings with name := some (settings.explicitName.getD madeUp) }
        c.cursor.settings defaults ∧
      checkChange c.name c.cursor.settings wanted = .ok () ∧
      s.checkDisjointFrom c.name wanted.filter = .ok () ∧
      s.changeConsumer c wanted b = (changed, s', b') ∧ reply = changed.map fun _ => c.id) := by
  simp only [upsertConsumer] at h
  split at h
  · cases h
    exact .inl ⟨rfl, rfl⟩
  · next hchecked =>
    split at h
    · next hnone =>
      split at h
      · cases h
        exact .inl ⟨rfl, rfl⟩
      · split at h
        · cases h
          exact .inl ⟨rfl, rfl⟩
        · next hadd =>
          cases h
          have hs := addConsumer_eq_ok hadd
          cases hs
          exact .inr (.inl ⟨_, _, hnone, hchecked, rfl, rfl, hadd⟩)
    · next c hc =>
      split at h
      · cases h
        exact .inl ⟨rfl, rfl⟩
      · split at h
        · cases h
          exact .inl ⟨rfl, rfl⟩
        · split at h
          · cases h
            exact .inl ⟨rfl, rfl⟩
          · next hcheck =>
            cases h
            obtain ⟨⟨⟩, hchange, hdisjoint⟩ := except_bind_eq_ok.1 hcheck
            -- The consumer was looked up by its name, so it has that name.
            have hname : c.name = settings.explicitName.getD madeUp := by
              simpa using List.find?_some hc
            exact .inr (.inr ⟨c, _, _, hc, hchecked, rfl, hname ▸ hchange, hname ▸ hdisjoint, rfl,
              rfl⟩)

/-- There is no consumer of the name, or it goes, and with it what only it needed. -/
theorem deleteConsumer_cases {name : String} {reply : Except Error Unit}
    (h : s.deleteConsumer name b = (reply, s', b')) :
    (s' = s ∧ b' = b) ∨
      ∃ t : Stream, t.index = s.index ∧ t.settings = s.settings ∧
        t.consumers.Sublist s.consumers ∧ t.releaseUnclaimed b = (reply, s', b') := by
  rw [deleteConsumer] at h
  split at h
  · cases h
    exact .inl ⟨rfl, rfl⟩
  · refine .inr ⟨_, ?_, ?_, ?_, h⟩
    · rfl
    · rfl
    · exact List.filter_sublist

/-- The first of some consumers is deleted, and then the others, unless the numbers ran out. -/
theorem deleteConsumers_cons_cases {name : String} {names : List String}
    {reply : Except Error Unit} (h : s.deleteConsumers (name :: names) b = (reply, s', b')) :
    (reply = .error .numbersExhausted ∧
      s.deleteConsumer name b = (.error .numbersExhausted, s', b')) ∨
    ∃ r t b₁, s.deleteConsumer name b = (r, t, b₁) ∧ r ≠ .error .numbersExhausted ∧
      t.deleteConsumers names b₁ = (reply, s', b') := by
  rw [deleteConsumers] at h
  split at h
  · next hd =>
    cases h
    exact .inl ⟨rfl, hd⟩
  · next r t b₁ hne hd =>
    exact .inr ⟨r, t, b₁, hd, hne, h⟩

theorem sweep_cases {clock : Clock} {reply : Except Error Unit}
    (h : s.sweep clock b = (reply, s', b')) :
    (reply = .error .numbersExhausted ∧ b' = b) ∨
      ∃ t b₁ names, s.evict clock.wall b = (.ok (), t, b₁) ∧
        t.deleteConsumers names b₁ = (reply, s', b') := by
  rw [sweep] at h
  split at h
  · next e t b₁ hevict =>
    cases h
    rcases evict_cases hevict with ⟨herror, rfl⟩ | ⟨hok, -⟩
    · exact .inl ⟨herror, rfl⟩
    · cases hok
  · next t b₁ hevict => exact .inr ⟨t, b₁, _, hevict, h⟩

/-! ## Handing out and acknowledging -/

/-- What is settled goes, also when a message is too large to be handed out. -/
theorem handOut_cases {id : Nat} {cursor : Cursor} {haul : Cursor.Haul} {expired : List Nat}
    {reply : Except Error Collected} (h : s.handOut id cursor haul expired b = (reply, s', b')) :
    (reply = .error .numbersExhausted ∧ b' = b) ∨
      ∃ t, t = s.modifyConsumer id (·.mapCursor fun _ => cursor) ∧
        s' = { t with index := (t.releasing haul.settled t.index).2 } ∧
          b' = s'.forget (expired ++ (t.releasing haul.settled t.index).1) b := by
  simp only [handOut] at h
  obtain ⟨t, ht⟩ : ∃ t, t = s.modifyConsumer id (·.mapCursor fun _ => cursor) := ⟨_, rfl⟩
  rw [← ht] at h
  rcases t.reduce_cases (t.releasing haul.settled) with ⟨u, hr⟩ | hr
  · rw [hr] at h
    cases h
    exact .inl ⟨rfl, rfl⟩
  · -- A message that is too large is reported behind the removal of what was settled.
    refine .inr ⟨t, ht, ?_⟩
    simp only [hr] at h
    split at h
    · cases h
      exact ⟨rfl, rfl⟩
    · cases h
      exact ⟨rfl, rfl⟩

/-- What is too old goes before the cursor looks at the stream. -/
theorem collect_cases {c : Consumer} {l : Cursor.Limits} {clock : Clock}
    {reply : Except Error Collected} (h : s.collect c l clock b = (reply, s', b')) :
    (reply = .error .numbersExhausted ∧ b' = b) ∨
      ∃ t, t = { s with index := (Retention.expire s.settings clock.wall s.index).2 } ∧
        t.handOut c.id (c.cursor.collect t.index l clock.elapsed).1
          (c.cursor.collect t.index l clock.elapsed).2
          (Retention.expire s.settings clock.wall s.index).1 b = (reply, s', b') := by
  simp only [collect] at h
  rcases s.reduce_cases (Retention.expire s.settings clock.wall) with ⟨t, hr⟩ | hr
  · rw [hr] at h
    cases h
    exact .inl ⟨rfl, rfl⟩
  · simp only [hr] at h
    split at h
    · exact .inr ⟨_, rfl, h⟩
    · cases h
      exact .inl ⟨rfl, rfl⟩

/-- An acknowledgement is not noted, or the cursor notes it and what it settled goes.  If that runs
out of numbers no more of them are noted. -/
theorem acknowledge_cases {c : Consumer} {n : Nat} {kind : AckKind} {clock : Clock}
    {reply : Except Error Unit} (h : s.acknowledge c n kind clock b = (reply, s', b')) :
    (s' = s ∧ b' = b ∧ s.takesAcks = false) ∨ (s'.takesAcks = false ∧ b' = b) ∨
      ∃ t u settled, settled = (c.cursor.acknowledge n kind clock.elapsed).1 ∧
        t = s.modifyConsumer c.id
          (·.mapCursor fun _ => (c.cursor.acknowledge n kind clock.elapsed).2) ∧
        u = { t with index := (t.releasing settled t.index).2 } ∧
        s' = u.modifyConsumer c.id Consumer.notify ∧
        b' = u.forget (t.releasing settled t.index).1 b := by
  simp only [acknowledge] at h
  split at h
  · refine .inr ?_
    split at h
    · next e u b₁ hr =>
      cases h
      rcases reduceAll_cases hr with ⟨-, rfl⟩ | ⟨hok, -⟩
      · exact .inl ⟨rfl, rfl⟩
      · cases hok
    · next u b₁ hr =>
      cases h
      rcases reduceAll_cases hr with ⟨herror, -⟩ | ⟨-, hu, rfl⟩
      · cases herror
      · exact .inr ⟨_, u, _, rfl, rfl, hu, rfl, rfl⟩
  · next hstopped =>
    cases h
    exact .inl ⟨rfl, rfl, Bool.eq_false_iff.2 hstopped⟩

end Stream

/-! ## Operations -/

namespace StreamOp

variable {s s' : Stream} {b b' : Backend} {op : StreamOp} {clock : Clock}
  {reply : Except Error StreamReply}

/-- What an operation comes to: it calls a function of the stream, and its answer is made of what
that gives.  One on behalf of a consumer that does not exist calls none. -/
inductive Outcome (clock : Clock) (s : Stream) (b : Backend) :
    StreamOp → Except Error StreamReply → Stream → Backend → Prop where
  | publish {maxPayload : Nat} {e : Expectations} {m : Message} {r : Except Error Nat}
      {s' : Stream} {b' : Backend} (h : s.publish maxPayload clock e m b = (r, s', b')) :
      Outcome clock s b (.publish maxPayload e m) (r.map .stored) s' b'
  | deleteMessage {n : Nat} {r : Except Error Unit} {s' : Stream} {b' : Backend}
      (h : s.deleteMessage n b = (r, s', b')) :
      Outcome clock s b (.deleteMessage n) (r.map fun _ => .done) s' b'
  | purge {request : PurgeRequest} {r : Except Error Nat} {s' : Stream} {b' : Backend}
      (h : s.purge request b = (r, s', b')) :
      Outcome clock s b (.purge request) (r.map .removed) s' b'
  | evict {r : Except Error Unit} {s' : Stream} {b' : Backend}
      (h : s.evict clock.wall b = (r, s', b')) :
      Outcome clock s b .evict (r.map fun _ => .done) s' b'
  | changeSettings {settings : StreamSettings} {r : Except Error Unit} {s' : Stream}
      {b' : Backend} (h : s.changeSettings settings clock b = (r, s', b')) :
      Outcome clock s b (.changeSettings settings) (r.map fun _ => .done) s' b'
  | upsertConsumer {mode : UpsertMode} {id : Nat} {madeUp : String} {defaults : BrokerSettings}
      {settings : ConsumerSettings} {r : Except Error Nat} {s' : Stream} {b' : Backend}
      (h : s.upsertConsumer mode id madeUp defaults settings clock b = (r, s', b')) :
      Outcome clock s b (.upsertConsumer mode id madeUp defaults settings) (r.map .consumer) s' b'
  | deleteConsumer {name : String} {r : Except Error Unit} {s' : Stream} {b' : Backend}
      (h : s.deleteConsumer name b = (r, s', b')) :
      Outcome clock s b (.deleteConsumer name) (r.map fun _ => .done) s' b'
  | collect {id : Nat} {c : Consumer} {l : Cursor.Limits} {r : Except Error Collected}
      {s' : Stream} {b' : Backend} (hc : (s.consumers.find? fun c => c.id == id) = some c)
      (h : s.collect c l clock b = (r, s', b')) :
      Outcome clock s b (.collect id l) (r.map .collected) s' b'
  | acknowledge {id n : Nat} {c : Consumer} {kind : AckKind} {r : Except Error Unit}
      {s' : Stream} {b' : Backend} (hc : (s.consumers.find? fun c => c.id == id) = some c)
      (h : s.acknowledge c n kind clock b = (r, s', b')) (htakes : s'.takesAcks = true) :
      Outcome clock s b (.acknowledge id n kind) (r.map fun _ => .done) s' b'
  /-- The acknowledgement ran out of numbers, or one before it did. -/
  | acknowledgeStuck {id n : Nat} {c : Consumer} {kind : AckKind} {r : Except Error Unit}
      {s' : Stream} {b' : Backend} (h : s.acknowledge c n kind clock b = (r, s', b')) :
      Outcome clock s b (.acknowledge id n kind) (.error .numbersExhausted) s' b'
  | sweep {r : Except Error Unit} {s' : Stream} {b' : Backend}
      (h : s.sweep clock b = (r, s', b')) :
      Outcome clock s b .sweep (r.map fun _ => .done) s' b'
  | attend {id : Nat} {a : Attendance} :
      Outcome clock s b (.attend id a) (.ok .done) (s.modifyConsumer id (a.change clock.elapsed)) b
  | collectNone {id : Nat} {l : Cursor.Limits}
      (hc : (s.consumers.find? fun c => c.id == id) = none) :
      Outcome clock s b (.collect id l) (.error (.consumerNotFound "")) s b
  | acknowledgeNone {id n : Nat} {kind : AckKind}
      (hc : (s.consumers.find? fun c => c.id == id) = none) :
      Outcome clock s b (.acknowledge id n kind) (.error (.consumerNotFound "")) s b

theorem answering_eq {α : Type} {f : α → StreamReply} {r : Except Error α × Stream × Backend}
    (h : answering f r = (reply, s', b')) :
    reply = r.1.map f ∧ r = (r.1, s', b') := by
  obtain ⟨r, t, b₁⟩ := r
  cases h
  exact ⟨rfl, rfl⟩

theorem outcome_run (h : op.run clock s b = (reply, s', b')) :
    Outcome clock s b op reply s' b' := by
  cases op with
  | publish maxPayload e m =>
    obtain ⟨rfl, hr⟩ := answering_eq h
    exact .publish hr
  | deleteMessage n =>
    obtain ⟨rfl, hr⟩ := answering_eq h
    exact .deleteMessage hr
  | purge r =>
    obtain ⟨rfl, hr⟩ := answering_eq h
    exact .purge hr
  | evict =>
    obtain ⟨rfl, hr⟩ := answering_eq h
    exact .evict hr
  | changeSettings settings =>
    obtain ⟨rfl, hr⟩ := answering_eq h
    exact .changeSettings hr
  | upsertConsumer mode id madeUp defaults settings =>
    obtain ⟨rfl, hr⟩ := answering_eq h
    exact .upsertConsumer hr
  | deleteConsumer name =>
    obtain ⟨rfl, hr⟩ := answering_eq h
    exact .deleteConsumer hr
  | collect id l =>
    rw [run, asConsumer] at h
    split at h
    · next c hc =>
      obtain ⟨rfl, hr⟩ := answering_eq h
      exact .collect hc hr
    · next hc =>
      cases h
      exact .collectNone hc
  | acknowledge id n kind =>
    rw [run, asConsumer] at h
    split at h
    · next c hc =>
      rw [acknowledged] at h
      split at h
      · next htakes =>
        obtain ⟨rfl, hr⟩ := answering_eq h
        rw [hr] at htakes
        exact .acknowledge hc hr htakes
      · -- The acknowledgement stopped the stream, and that is the answer.
        obtain ⟨rfl, hr⟩ := Prod.mk.inj h
        exact .acknowledgeStuck (Prod.ext rfl hr)
    · next hc =>
      cases h
      exact .acknowledgeNone hc
  | sweep =>
    obtain ⟨rfl, hr⟩ := answering_eq h
    exact .sweep hr
  | attend id a =>
    cases h
    exact .attend

/-- What an answer is made into does not hide that the numbers ran out. -/
theorem ne_exhausted_of_map {α β : Type} {f : α → β} {r : Except Error α}
    (h : r.map f ≠ .error .numbersExhausted) : r ≠ .error .numbersExhausted := by
  rintro rfl
  exact h rfl

theorem map_stored_eq_ok {r : Except Error Nat} {n : Nat}
    (h : r.map StreamReply.stored = .ok (.stored n)) : r = .ok n := by
  obtain ⟨k, rfl, hk⟩ := except_map_eq_ok.1 h
  cases hk
  rfl

/-- Only a publish is answered with a number of a message. -/
theorem publish_of_stored {n : Nat} (h : op.run clock s b = (.ok (.stored n), s', b')) :
    ∃ maxPayload e m, op = .publish maxPayload e m ∧
      s.publish maxPayload clock e m b = (.ok n, s', b') := by
  generalize hreply : (.ok (.stored n) : Except Error StreamReply) = reply at h
  have hmap {α : Type} {f : α → StreamReply} {r : Except Error α} (hf : ∀ a n, f a ≠ .stored n) :
      .ok (.stored n) ≠ r.map f := by
    intro heq
    obtain ⟨a, -, ha⟩ := except_map_eq_ok.1 heq.symm
    exact hf a n ha
  cases outcome_run h with
  | publish hr => exact ⟨_, _, _, rfl, map_stored_eq_ok hreply.symm ▸ hr⟩
  | acknowledgeStuck => cases hreply
  | attend => cases hreply
  | collectNone => cases hreply
  | acknowledgeNone => cases hreply
  | _ => exact absurd hreply (hmap (by simp))

end StreamOp

end StreamBroker
