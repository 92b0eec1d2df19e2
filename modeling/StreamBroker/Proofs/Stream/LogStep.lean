import StreamBroker.Proofs.Entry.RoundTrip
import StreamBroker.Proofs.Index.Removal
import StreamBroker.Proofs.Stream.Life
import StreamBroker.Proofs.Stream.Outcomes

/-!
# Operations as steps of a log

Whatever an operation is about, what it does to the index and the journal of a stream is a sequence
of steps of three kinds: a message is stored under the next number, some messages go from the index
and then from the journal, or a message cannot be written and nothing changes.  Consumers, limits
and requests only decide which messages go.  What is to hold of the index and the journal after
every operation is therefore shown of these steps, and of nothing else.

## Main definitions

* `LogStep`, `LogRun`: one step, and steps one after the other
* `Stream.Moves`: what happens to a stream is steps of its log
* `Stream.Ends`: what an operation did is steps of the log, also when it ran out of numbers

## Main results

* `LogRun.sound`, `LogRun.loses`: what steps keep, and what those without a message do
* `Stream.moves_discard`: messages that go from the index of a stream and then from its journal
* `Stream.ends_publish`, `Stream.ends_purge`, …: operations on the log are steps
-/

namespace StreamBroker

/-! ## Steps -/

/-- The calls that remove messages from a journal, if there is one. -/
def removalCallsIn (journal : Option String) (x : Index) (gone : List Nat) : List LogCall :=
  journal.elim [] fun ns => Journal.removalCalls ns x gone

/-- A message is written to a journal, if there is one. -/
inductive Written (m : StoredMessage) : Option String → Backend → Backend → Prop where
  | unjournaled {b : Backend} : Written m none b b
  | journaled {ns : String} {octets : Bytes} {b b' : Backend} {reply : LogReply}
      (hencode : Entry.encode m = .ok octets)
      (h : b.perform (.append ns [(m.sequence, octets)]) = (.ok reply, b')) :
      Written m (some ns) b b'

/-- A step of the index and the journal of a stream, with the messages that it stores. -/
inductive LogStep (journal : Option String) :
    Index → Backend → List StoredMessage → Index → Backend → Prop where
  /-- A message is stored under the next number. -/
  | store {x : Index} {b b' : Backend} {m : StoredMessage} (hnext : m.sequence = x.lastSeq + 1)
      (hlt : m.sequence < wordLimit) (htime : m.timestamp.IsKept) (h : Written m journal b b') :
      LogStep journal x b [m] (x.commit m) b'
  /-- Messages go from the index and then from the journal. -/
  | lose {x y : Index} {b : Backend} {gone : List Nat} (h : x.Loses gone y) :
      LogStep journal x b [] y (b.performAll (removalCallsIn journal y gone)).2
  /-- A message cannot be written. -/
  | fail {x : Index} {b : Backend} {ns : String} {entry : Nat × Bytes} {e : StorageError}
      (hjournal : journal = some ns) (hlt : entry.1 < wordLimit)
      (h : (b.perform (.append ns [entry])).1 = .error e) :
      LogStep journal x b [] x (b.perform (.append ns [entry])).2

/-- Steps one after the other, with the messages that they store. -/
inductive LogRun (journal : Option String) (x : Index) (b : Backend) :
    List StoredMessage → Index → Backend → Prop where
  | refl : LogRun journal x b [] x b
  | step {ms ms' : List StoredMessage} {y z : Index} {b' b'' : Backend}
      (run : LogRun journal x b ms y b') (h : LogStep journal y b' ms' z b'') :
      LogRun journal x b (ms ++ ms') z b''

namespace LogRun

variable {journal : Option String} {x y z : Index} {b b' b'' : Backend}
  {ms ms' : List StoredMessage}

theorem single (h : LogStep journal x b ms y b') : LogRun journal x b ms y b' := by
  have hrun : LogRun journal x b ([] ++ ms) y b' := .step .refl h
  exact hrun

theorem trans (h : LogRun journal x b ms y b') (h' : LogRun journal y b' ms' z b'') :
    LogRun journal x b (ms ++ ms') z b'' := by
  induction h' with
  | refl => rwa [List.append_nil]
  -- Induction on the second run: its last step goes behind the joined rest.
  | step run hstep ih => rw [← List.append_assoc]; exact .step ih hstep

end LogRun

section Kept

variable {journal : Option String} {x y : Index} {b b' : Backend} {ms : List StoredMessage}

theorem LogStep.sound (h : LogStep journal x b ms y b') (hx : x.Sound) : y.Sound := by
  cases h with
  | store hnext hlt htime h => exact hx.commit (hnext ▸ Nat.lt_succ_self _)
  | lose h => exact h.sound hx
  | fail hjournal hlt h => exact hx

theorem LogRun.sound (h : LogRun journal x b ms y b') (hx : x.Sound) : y.Sound := by
  induction h with
  | refl => exact hx
  | step run h ih => exact h.sound ih

theorem LogStep.lastSeq_lt (h : LogStep journal x b ms y b') (hx : x.lastSeq < wordLimit) :
    y.lastSeq < wordLimit := by
  cases h with
  | store hnext hlt htime h => exact Nat.max_lt.2 ⟨hx, hlt⟩
  | lose h => exact h.lastSeq_eq ▸ hx
  | fail hjournal hlt h => exact hx

theorem LogRun.lastSeq_lt (h : LogRun journal x b ms y b') (hx : x.lastSeq < wordLimit) :
    y.lastSeq < wordLimit := by
  induction h with
  | refl => exact hx
  | step run h ih => exact h.lastSeq_lt ih

/-- Steps that store no message only let messages go. -/
theorem LogRun.loses (h : LogRun journal x b ms y b') (hms : ms = []) :
    ∃ gone, x.Loses gone y := by
  induction h with
  | refl => exact ⟨[], .refl x⟩
  | step run h ih =>
    obtain ⟨hrun, hstep⟩ := List.append_eq_nil_iff.1 hms
    obtain ⟨gone, hgone⟩ := ih hrun
    cases h with
    | store hnext hlt htime h => cases hstep
    | lose h => exact ⟨_, hgone.trans h⟩
    | fail hjournal hlt h => exact ⟨gone, hgone⟩

end Kept

/-- The namespace of the journal that settings ask for, if they do. -/
def StreamSettings.journal? (settings : StreamSettings) : Option String :=
  if settings.storage = .file then some (Journal.namespaceOf settings.name) else none

theorem StreamSettings.journal?_eq_some_iff {settings : StreamSettings} {ns : String} :
    settings.journal? = some ns ↔
      settings.storage = .file ∧ Journal.namespaceOf settings.name = ns := by
  rw [journal?]
  split
  · next h => simp [h]
  · next h => simp [h]

namespace Stream

/-- The namespace of the journal of a stream, if it keeps one. -/
def journal? (s : Stream) : Option String := s.settings.journal?

theorem journal?_of_isJournaled {s : Stream} (h : s.isJournaled = true) :
    s.journal? = some s.journal := if_pos (of_decide_eq_true h)

theorem journal?_of_not_isJournaled {s : Stream} (h : ¬s.isJournaled = true) :
    s.journal? = none := if_neg fun hs => h (decide_eq_true hs)

/-- A journal is found by its name, so a stream that is opened again has the one that it wrote. -/
theorem journal?_of_reopened {s : Stream} {settings : StreamSettings} (hs : s.isJournaled = true)
    (hname : settings.name = s.name) (hstorage : settings.storage = .file) :
    settings.journal? = s.journal? := by
  rw [journal?_of_isJournaled hs, journal, ← hname]
  exact if_pos hstorage

/-- What no operation changes: where the journal of a stream is, and what the stream keeps. -/
def fixed (s : Stream) : Option String × RetentionPolicy := (s.journal?, s.settings.retention)

/-- What happens to a stream is steps of its log. -/
structure Moves (s : Stream) (b : Backend) (ms : List StoredMessage) (s' : Stream) (b' : Backend) :
    Prop where
  /-- The index and the journal go through steps. -/
  run : LogRun s.journal? s.index b ms s'.index b'
  /-- What is fixed stays as it is. -/
  fixed : s'.fixed = s.fixed

namespace Moves

variable {s t u : Stream} {b b' b'' : Backend} {ms ms' : List StoredMessage}

theorem journal (h : s.Moves b ms t b') : t.journal? = s.journal? := congrArg Prod.fst h.fixed

theorem retention (h : s.Moves b ms t b') : t.settings.retention = s.settings.retention :=
  congrArg Prod.snd h.fixed

/-- What does not touch the index is no step at all. -/
theorem of_index_eq (hindex : t.index = s.index) (hfixed : t.fixed = s.fixed) :
    s.Moves b [] t b := ⟨hindex ▸ .refl, hfixed⟩

theorem refl (s : Stream) (b : Backend) : s.Moves b [] s b := of_index_eq rfl rfl

theorem trans (h : s.Moves b ms t b') (h' : t.Moves b' ms' u b'') :
    s.Moves b (ms ++ ms') u b'' :=
  ⟨h.run.trans (h.journal ▸ h'.run), h'.fixed.trans h.fixed⟩

/-- What does not touch the index may come behind. -/
theorem trans_of_index_eq (h : s.Moves b ms t b') (hindex : u.index = t.index)
    (hfixed : u.fixed = t.fixed) : s.Moves b ms u b' := by
  have := h.trans (of_index_eq (b := b') hindex hfixed)
  rwa [List.append_nil] at this

end Moves

/-- What happens to the backend of a stream is steps of its log, whatever becomes of the stream. -/
def Reaches (s : Stream) (b b' : Backend) : Prop :=
  ∃ ms x, LogRun s.journal? s.index b ms x b'

theorem Moves.reaches {s t : Stream} {b b' : Backend} {ms : List StoredMessage}
    (h : s.Moves b ms t b') : s.Reaches b b' := ⟨ms, t.index, h.run⟩

/-- How an operation ends.  What it did is steps of the log, but when it ran out of numbers nobody
sees what became of the stream. -/
inductive Ends {α : Type} (s : Stream) (b : Backend) (ms : List StoredMessage) :
    Except Error α → Stream → Backend → Prop where
  /-- The steps were made. -/
  | moved {reply : Except Error α} {s' : Stream} {b' : Backend} (h : s.Moves b ms s' b') :
      Ends s b ms reply s' b'
  /-- The numbers ran out, and the backend is where steps led it to. -/
  | stuck {s' : Stream} {b' : Backend} (h : s.Reaches b b') :
      Ends s b ms (.error .numbersExhausted) s' b'

namespace Ends

variable {α β : Type} {s t s' : Stream} {b b₁ b' : Backend} {ms ms' : List StoredMessage}
  {reply : Except Error α}

theorem refl (s : Stream) (b : Backend) (reply : Except Error α) : s.Ends b [] reply s b :=
  .moved (.refl s b)

/-- An operation runs out of numbers before it has made a call. -/
theorem untouched (s s' : Stream) (b : Backend) :
    s.Ends b [] (α := α) (.error .numbersExhausted) s' b := .stuck (Moves.refl s b).reaches

theorem of_moves_trans (h : s.Moves b ms t b₁) (h' : t.Ends b₁ ms' reply s' b') :
    s.Ends b (ms ++ ms') reply s' b' := by
  cases h' with
  | moved h' => exact .moved (h.trans h')
  | stuck h' =>
    obtain ⟨ms', x, run⟩ := h'
    exact .stuck ⟨_, x, h.run.trans (h.journal ▸ run)⟩

theorem moves (h : s.Ends b ms reply s' b') (hreply : reply ≠ .error .numbersExhausted) :
    s.Moves b ms s' b' := by
  cases h with
  | moved h => exact h
  | stuck h => exact absurd rfl hreply

theorem reaches (h : s.Ends b ms reply s' b') : s.Reaches b b' := by
  cases h with
  | moved h => exact h.reaches
  | stuck h => exact h

/-- What the answer is made into has no part in how an operation ends. -/
theorem map (h : s.Ends b ms reply s' b') (f : α → β) : s.Ends b ms (reply.map f) s' b' := by
  cases h with
  | moved h => exact .moved h
  | stuck h => exact .stuck h

end Ends

/-! ## What is taken from the index -/

theorem loses_trim (settings : StreamSettings) (now : Timestamp) (x : Index) :
    x.Loses (trim settings now x).1 (trim settings now x).2 :=
  (Retention.loses_expire settings now x).trans (Retention.loses_enforceLimits settings none _)

theorem loses_prune (settings : StreamSettings) (now : Timestamp) (x : Index) :
    x.Loses (prune settings now x).1 (prune settings now x).2 := by
  have htrim := loses_trim settings now x
  simp only [prune]
  split
  · exact htrim.trans (Retention.loses_releaseUnclaimed _ _)
  · exact htrim.trans (.refl _)

theorem loses_makeRoom (s : Stream) (m : StoredMessage) (x : Index) :
    x.Loses (s.makeRoom m x).1 (s.makeRoom m x).2 := by
  have hlimits := Retention.loses_enforceLimits s.settings (some m.subject) x
  simp only [makeRoom]
  split
  · exact hlimits.trans (Retention.loses_release _ _ _ _)
  · exact hlimits.trans (.refl _)

theorem loses_releasing (s : Stream) (settled : List Nat) (x : Index) :
    x.Loses (s.releasing settled x).1 (s.releasing settled x).2 :=
  Retention.loses_release _ _ _ x

variable {s s' : Stream} {b b' : Backend} {f : Index → List Nat × Index}

/-- What went from the index goes from the journal by the calls for it. -/
theorem discard_eq (s : Stream) (gone : List Nat) (b : Backend) :
    s.discard gone b =
      ((b.performAll (removalCallsIn s.journal? s.index gone)).1.mapError .storage,
        (b.performAll (removalCallsIn s.journal? s.index gone)).2) := by
  rw [discard]
  split
  · next hs => rw [removalCallsIn, journal?_of_isJournaled hs]; rfl
  · next hs => rw [removalCallsIn, journal?_of_not_isJournaled hs]; rfl

theorem reduce_of_eq_nil (h : f s.index = ([], s.index)) : s.reduce f = (.ok [], s) := by
  simp [reduce, h, Index.isStuck]

theorem discard_nil (s : Stream) (b : Backend) : s.discard [] b = (.ok (), b) := by
  rw [discard_eq, removalCallsIn]
  cases s.journal? <;> rfl

theorem forget_nil (s : Stream) (b : Backend) : s.forget [] b = b :=
  congrArg Prod.snd (discard_nil s b)

/-- Messages go from the index of a stream, and then from its journal. -/
theorem moves_discard {gone : List Nat} {x : Index} (h : s.index.Loses gone x) (b : Backend) :
    s.Moves b [] { s with index := x } (discard { s with index := x } gone b).2 := by
  refine ⟨?_, rfl⟩
  rw [discard_eq]
  exact .single (.lose h)

theorem ends_reduceAll (hf : s.index.Loses (f s.index).1 (f s.index).2)
    {reply : Except Error Unit} (h : s.reduceAll f b = (reply, s', b')) :
    s.Ends b [] reply s' b' := by
  rcases reduceAll_cases h with ⟨rfl, rfl⟩ | ⟨-, rfl, rfl⟩
  · exact .untouched s s' _
  · exact .moved (moves_discard hf b)

theorem ends_evict {now : Timestamp} {reply : Except Error Unit}
    (h : s.evict now b = (reply, s', b')) : s.Ends b [] reply s' b' :=
  ends_reduceAll (Retention.loses_expire s.settings now _) h

theorem ends_releaseUnclaimed {reply : Except Error Unit}
    (h : s.releaseUnclaimed b = (reply, s', b')) : s.Ends b [] reply s' b' := by
  rcases releaseUnclaimed_cases h with ⟨rfl, rfl⟩ | ⟨-, -, rfl, rfl⟩ | ⟨-, rfl, rfl⟩
  · exact .untouched s s' _
  · exact .refl _ _ _
  · exact .moved (moves_discard (Retention.loses_releaseUnclaimed s.isNeeded s.index) b)

/-! ## Messages -/

/-- A message that is in the index was written before. -/
theorem moves_commit {m : StoredMessage} (hnext : m.sequence = s.index.lastSeq + 1)
    (hlt : m.sequence < wordLimit) (htime : m.timestamp.IsKept)
    (h : s.write m b = (.ok (), b')) : s.Moves b [m] { s with index := s.index.commit m } b' := by
  refine ⟨.single (.store hnext hlt htime ?_), rfl⟩
  rw [write] at h
  split at h
  · next hs =>
    cases hcall : Journal.appendCall s.journal m with
    | error e =>
      simp only [hcall] at h
      cases h
    | ok call =>
      obtain ⟨octets, hencode, happend⟩ := except_bind_eq_ok.1 hcall
      cases happend
      simp only [hcall] at h
      cases hp : b.perform (.append s.journal [(m.sequence, octets)]) with
      | mk r b₁ =>
        rw [hp] at h
        cases r with
        | error e => cases h
        | ok r =>
          cases h
          rw [journal?_of_isJournaled hs]
          exact .journaled hencode hp
  · next hs =>
    cases h
    rw [journal?_of_not_isJournaled hs]
    exact .unjournaled

theorem moves_write_error {m : StoredMessage} {e : Error} (hlt : m.sequence < wordLimit)
    (h : s.write m b = (.error e, b')) : s.Moves b [] s b' := by
  rw [write] at h
  split at h
  · next hs =>
    cases hcall : Journal.appendCall s.journal m with
    | error e =>
      simp only [hcall] at h
      cases h
      -- No octets, no call.
      exact .refl s _
    | ok call =>
      obtain ⟨octets, -, happend⟩ := except_bind_eq_ok.1 hcall
      cases happend
      simp only [hcall] at h
      -- The entry has octets, so it is up to the backend.
      cases hp : b.perform (.append s.journal [(m.sequence, octets)]) with
      | mk r b₁ =>
        rw [hp] at h
        cases r with
        | error error =>
          cases h
          have hstep := LogStep.fail (x := s.index) (journal?_of_isJournaled hs) hlt
            (congrArg Prod.fst hp)
          rw [hp] at hstep
          exact ⟨.single hstep, rfl⟩
        | ok r => cases h
  · cases h

theorem index_announce (s : Stream) (m : StoredMessage) : (s.announce m).index = s.index := by
  rw [announce]
  split <;> rfl

theorem settings_announce (s : Stream) (m : StoredMessage) :
    (s.announce m).settings = s.settings := by
  rw [announce]
  split <;> rfl

theorem fixed_announce (s : Stream) (m : StoredMessage) : (s.announce m).fixed = s.fixed := by
  rw [fixed, fixed, journal?, journal?, settings_announce]

/-- The calls for what went are about the index, which an announcement does not touch. -/
theorem forget_announce (s : Stream) (m : StoredMessage) (gone : List Nat) (b : Backend) :
    (s.announce m).forget gone b = (s.discard gone b).2 := by
  have hjournal : (s.announce m).journal? = s.journal? := congrArg Prod.fst (fixed_announce s m)
  rw [forget, discard_eq, discard_eq, hjournal, index_announce]

/-- What goes for a message that is in the index goes behind it. -/
theorem moves_accepted {t : Stream} {m : StoredMessage} (hnext : m.sequence = s.index.lastSeq + 1)
    (hlt : m.sequence < wordLimit) (htime : m.timestamp.IsKept)
    (h : s.write m b = (.ok (), b'))
    (ht : t = announce { s with index := (s.makeRoom m (s.index.commit m)).2 } m) :
    s.Moves b [m] t.notifyAll (t.forget (s.makeRoom m (s.index.commit m)).1 b') := by
  subst ht
  have hcommit := moves_commit hnext hlt htime h
  have hroom := loses_makeRoom s m (s.index.commit m)
  have hmoves := hcommit.trans (moves_discard hroom b')
  rw [forget_announce]
  exact hmoves.trans_of_index_eq (index_announce _ m) (fixed_announce _ m)

/-- A message that a stream is ready for is stored, or nothing changes. -/
theorem ends_storeMessage {m : StoredMessage} {reply : Except Error Nat}
    (hnext : m.sequence = s.index.lastSeq + 1) (hlt : m.sequence < wordLimit)
    (htime : m.timestamp.IsKept) (h : s.storeMessage m b = (reply, s', b')) :
    (reply = .ok m.sequence ∧ s.Moves b [m] s' b') ∨
      (∃ e, reply = .error e) ∧ s.Ends b [] reply s' b' := by
  rcases storeMessage_cases h with
    ⟨e, hw, rfl, rfl⟩ | ⟨b₁, hw, ⟨rfl, rfl⟩ | ⟨t, ht, rfl, rfl, rfl⟩⟩
  · exact .inr ⟨⟨e, rfl⟩, .moved (moves_write_error hlt hw)⟩
  · -- The message was written before the first number was found to have nowhere to go.
    exact .inr ⟨⟨_, rfl⟩, .stuck (moves_commit hnext hlt htime hw).reaches⟩
  · exact .inl ⟨rfl, moves_accepted hnext hlt htime hw ht⟩

/-- A publish stores a message of the present under the number that it is answered with, or stores
nothing. -/
theorem ends_publish {maxPayload : Nat} {clock : Clock} {e : Expectations} {m : Message}
    {reply : Except Error Nat} (hclock : clock.IsDated)
    (h : s.publish maxPayload clock e m b = (reply, s', b')) :
    (∃ stored, stored.timestamp = clock.wall.toMicro ∧ reply = .ok stored.sequence ∧
      s.Moves b [stored] s' b') ∨
      (∃ error, reply = .error error) ∧ s.Ends b [] reply s' b' := by
  rcases publish_cases h with ⟨herror, rfl, rfl⟩ | ⟨rfl, rfl⟩ | ⟨t, b₁, hevict, hrest⟩
  · exact .inr ⟨herror, .refl _ _ _⟩
  · exact .inr ⟨⟨_, rfl⟩, .untouched s s' _⟩
  · -- What is too old goes before a message is looked at, so a publish that is refused may have
    -- removed some all the same.
    have hmoves := (ends_evict hevict).moves (by simp)
    rcases hrest with ⟨herror, rfl, rfl⟩ | ⟨hlt, -, hstore⟩
    · exact .inr ⟨herror, .moved hmoves⟩
    · rcases ends_storeMessage rfl hlt (Timestamp.isKept_toMicro hclock) hstore with
        ⟨hr, hm⟩ | ⟨hr, hm⟩
      · exact .inl ⟨_, rfl, hr, hmoves.trans hm⟩
      · exact .inr ⟨hr, .of_moves_trans hmoves hm⟩

/-! ## Removing -/

theorem ends_deleteMessage {n : Nat} {reply : Except Error Unit}
    (h : s.deleteMessage n b = (reply, s', b')) : s.Ends b [] reply s' b' := by
  rcases deleteMessage_cases h with ⟨rfl, rfl⟩ | ⟨rfl, rfl⟩ | ⟨rfl, rfl⟩
  · exact .refl _ _ _
  · exact .untouched s s' _
  · exact .moved (moves_discard (Index.loses_removeAll s.index [n]) b)

theorem ends_purge {r : PurgeRequest} {reply : Except Error Nat}
    (h : s.purge r b = (reply, s', b')) : s.Ends b [] reply s' b' := by
  rcases purge_cases h with ⟨rfl, rfl, -⟩ | ⟨rfl, rfl⟩ | ⟨left, t, hleft, rfl, hs', rfl⟩
  · exact .refl _ _ _
  · exact .untouched s s' _
  · -- The index is purged before the first call is made, so a purge whose calls fail is a step as
    -- well.
    have hmoves := moves_discard (Index.loses_purge hleft) b
    rcases hs' with rfl | rfl
    · exact .moved hmoves
    · exact .moved (hmoves.trans_of_index_eq rfl rfl)

/-! ## Settings -/

/-- Name and storage are fixed, so the settings that are new find the same journal. -/
theorem journal?_of_checkFixed {settings : StreamSettings} (hname : settings.name = s.name)
    (hfixed : Broker.checkFixed s.settings settings = .ok ()) :
    settings.journal? = s.journal? := by
  have hname : settings.name = s.settings.name := hname
  rw [journal?, StreamSettings.journal?, StreamSettings.journal?, (checkFixed_eq_ok hfixed).1,
    hname]

theorem ends_changeSettings {settings : StreamSettings} {clock : Clock}
    {reply : Except Error Unit} (hname : settings.name = s.name)
    (hfixed : Broker.checkFixed s.settings settings = .ok ())
    (h : s.changeSettings settings clock b = (reply, s', b')) : s.Ends b [] reply s' b' := by
  rcases changeSettings_cases h with ⟨rfl, rfl⟩ | ⟨t, ht, rfl, rfl⟩
  · exact .untouched s s' _
  · have hjournal : t.journal? = s.journal? := by
      rw [ht]
      exact journal?_of_checkFixed hname hfixed
    have hretention : t.settings.retention = s.settings.retention := by
      rw [ht]
      exact (checkFixed_eq_ok hfixed).2
    have hloses : s.index.Loses (trim settings clock.wall s.index).1 t.index := by
      rw [ht]
      exact loses_trim settings clock.wall s.index
    refine .moved ⟨?_, Prod.ext hjournal hretention⟩
    rw [forget, discard_eq, hjournal]
    exact .single (.lose hloses)

end Stream

end StreamBroker
