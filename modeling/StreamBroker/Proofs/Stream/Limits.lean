import StreamBroker.Proofs.Index.Limits
import StreamBroker.Proofs.Journal.Legible
import StreamBroker.Proofs.Stream.Restart

/-!
# The limits of a stream hold

A publish looks at the subject of its message only.  That is enough, because the other subjects were
within the limit before: a stream is opened with all of its subjects cut down, new settings cut them
down again, and everything else that happens to a stream lets messages go.  So the limits hold at
the end of every operation, under the settings that the stream has then, whatever becomes of the
calls to its backend.  A message that could not be deleted may come back when the stream is opened
again, and goes again before anyone sees it.

## Main definitions

* `Stream.Limited`: the limits hold, and so does what they rest on

## Main results

* `StreamOp.settings_run`: only a change of settings changes the settings
* `Stream.publish_eq_ok`: what an accepted publish does to the index
* `Stream.Life.within_limits`: the limits hold throughout a life
-/

namespace StreamBroker

namespace Stream

variable {s s' : Stream} {b b' : Backend} {clock : Clock}

/-! ## Settings stay -/

theorem settings_evict {now : Timestamp} {reply : Except Error Unit}
    (h : s.evict now b = (reply, s', b')) (hreply : reply ≠ .error .numbersExhausted) :
    s'.settings = s.settings := by
  rcases evict_cases h with ⟨rfl, -⟩ | ⟨-, rfl, -⟩
  · exact absurd rfl hreply
  · rfl

theorem settings_releaseUnclaimed {reply : Except Error Unit}
    (h : s.releaseUnclaimed b = (reply, s', b')) (hreply : reply ≠ .error .numbersExhausted) :
    s'.settings = s.settings := by
  rcases releaseUnclaimed_cases h with ⟨rfl, -⟩ | ⟨-, -, rfl, -⟩ | ⟨-, rfl, -⟩
  · exact absurd rfl hreply
  · rfl
  · rfl

theorem settings_storeMessage {m : StoredMessage} {reply : Except Error Nat}
    (h : s.storeMessage m b = (reply, s', b')) (hreply : reply ≠ .error .numbersExhausted) :
    s'.settings = s.settings := by
  rcases storeMessage_cases h with ⟨e, -, -, rfl⟩ | ⟨b₁, -, ⟨rfl, -⟩ | ⟨t, rfl, -, rfl, -⟩⟩
  · rfl
  · exact absurd rfl hreply
  · exact settings_announce _ m

theorem settings_publish {maxPayload : Nat} {e : Expectations} {m : Message}
    {reply : Except Error Nat} (h : s.publish maxPayload clock e m b = (reply, s', b'))
    (hreply : reply ≠ .error .numbersExhausted) : s'.settings = s.settings := by
  rcases publish_cases h with ⟨-, rfl, -⟩ | ⟨rfl, -⟩ | ⟨t, b₁, hevict, hrest⟩
  · rfl
  · exact absurd rfl hreply
  · have ht := settings_evict hevict (by simp)
    rcases hrest with ⟨-, rfl, -⟩ | ⟨-, -, hstore⟩
    · exact ht
    · exact (settings_storeMessage hstore hreply).trans ht

theorem settings_deleteMessage {n : Nat} {reply : Except Error Unit}
    (h : s.deleteMessage n b = (reply, s', b')) (hreply : reply ≠ .error .numbersExhausted) :
    s'.settings = s.settings := by
  rcases deleteMessage_cases h with ⟨rfl, -⟩ | ⟨rfl, -⟩ | ⟨rfl, -⟩
  · rfl
  · exact absurd rfl hreply
  · rfl

theorem settings_purge {r : PurgeRequest} {reply : Except Error Nat}
    (h : s.purge r b = (reply, s', b')) (hreply : reply ≠ .error .numbersExhausted) :
    s'.settings = s.settings := by
  rcases purge_cases h with ⟨rfl, -⟩ | ⟨rfl, -⟩ | ⟨left, t, -, rfl, rfl | rfl, -⟩
  · rfl
  · exact absurd rfl hreply
  · rfl
  · rfl

theorem settings_changeConsumer {c : Consumer} {settings : ConsumerSettings}
    {reply : Except Error Unit} (h : s.changeConsumer c settings b = (reply, s', b'))
    (hreply : reply ≠ .error .numbersExhausted) : s'.settings = s.settings := by
  rcases changeConsumer_cases h with ⟨rfl, -⟩ | ⟨t, u, rfl, hrelease, -, rfl⟩
  · exact absurd rfl hreply
  · have hu := settings_releaseUnclaimed hrelease (by simp)
    exact hu

theorem settings_upsertConsumer {mode : UpsertMode} {id : Nat} {madeUp : String}
    {defaults : BrokerSettings} {settings : ConsumerSettings} {reply : Except Error Nat}
    (h : s.upsertConsumer mode id madeUp defaults settings clock b = (reply, s', b'))
    (hreply : reply ≠ .error .numbersExhausted) : s'.settings = s.settings := by
  rcases upsertConsumer_cases h with ⟨rfl, -⟩ | ⟨name, wanted, -, -, -, -, hadd⟩ |
    ⟨c, wanted, changed, -, -, -, -, -, hchange, rfl⟩
  · rfl
  · have hs := addConsumer_eq_ok hadd
    cases hs
    rfl
  · exact settings_changeConsumer hchange (StreamOp.ne_exhausted_of_map hreply)

theorem settings_deleteConsumer {name : String} {reply : Except Error Unit}
    (h : s.deleteConsumer name b = (reply, s', b'))
    (hreply : reply ≠ .error .numbersExhausted) : s'.settings = s.settings := by
  rcases deleteConsumer_cases h with ⟨rfl, -⟩ | ⟨t, -, hsettings, -, hrelease⟩
  · rfl
  · exact (settings_releaseUnclaimed hrelease hreply).trans hsettings

theorem settings_deleteConsumers {names : List String} {reply : Except Error Unit}
    (h : s.deleteConsumers names b = (reply, s', b'))
    (hreply : reply ≠ .error .numbersExhausted) : s'.settings = s.settings := by
  induction names generalizing s b with
  | nil =>
    cases h
    rfl
  | cons name names ih =>
    rcases deleteConsumers_cons_cases h with ⟨rfl, -⟩ | ⟨r, t, b₁, hdelete, hr, hrest⟩
    · exact absurd rfl hreply
    · exact (ih hrest).trans (settings_deleteConsumer hdelete hr)

theorem settings_sweep {reply : Except Error Unit} (h : s.sweep clock b = (reply, s', b'))
    (hreply : reply ≠ .error .numbersExhausted) : s'.settings = s.settings := by
  rcases sweep_cases h with ⟨rfl, -⟩ | ⟨t, b₁, names, hevict, hdelete⟩
  · exact absurd rfl hreply
  · exact (settings_deleteConsumers hdelete hreply).trans (settings_evict hevict (by simp))

theorem settings_collect {c : Consumer} {l : Cursor.Limits} {reply : Except Error Collected}
    (h : s.collect c l clock b = (reply, s', b')) (hreply : reply ≠ .error .numbersExhausted) :
    s'.settings = s.settings := by
  rcases collect_cases h with ⟨rfl, -⟩ | ⟨t, rfl, hhand⟩
  · exact absurd rfl hreply
  · rcases handOut_cases hhand with ⟨rfl, -⟩ | ⟨u, rfl, rfl, -⟩
    · exact absurd rfl hreply
    · rfl

/-- An acknowledgement that runs out of numbers is the last one that a stream takes. -/
theorem settings_acknowledge {c : Consumer} {n : Nat} {kind : AckKind} {reply : Except Error Unit}
    (h : s.acknowledge c n kind clock b = (reply, s', b')) (htakes : s'.takesAcks = true) :
    s'.settings = s.settings := by
  rcases acknowledge_cases h with ⟨rfl, -⟩ | ⟨hstuck, -⟩ | ⟨t, u, settled, -, rfl, rfl, rfl, -⟩
  · rfl
  · rw [hstuck] at htakes
    cases htakes
  · rfl

end Stream

/-- **Only a change of settings changes the settings.** -/
theorem StreamOp.settings_run {s s' : Stream} {b b' : Backend} {op : StreamOp} {clock : Clock}
    {reply : Except Error StreamReply} (hne : ∀ settings, op ≠ .changeSettings settings)
    (h : op.run clock s b = (reply, s', b')) (hreply : reply ≠ .error .numbersExhausted) :
    s'.settings = s.settings := by
  cases outcome_run h with
  | publish hr => exact Stream.settings_publish hr (ne_exhausted_of_map hreply)
  | deleteMessage hr => exact Stream.settings_deleteMessage hr (ne_exhausted_of_map hreply)
  | purge hr => exact Stream.settings_purge hr (ne_exhausted_of_map hreply)
  | evict hr => exact Stream.settings_evict hr (ne_exhausted_of_map hreply)
  | changeSettings hr => exact absurd rfl (hne _)
  | upsertConsumer hr => exact Stream.settings_upsertConsumer hr (ne_exhausted_of_map hreply)
  | deleteConsumer hr => exact Stream.settings_deleteConsumer hr (ne_exhausted_of_map hreply)
  | collect hc hr => exact Stream.settings_collect hr (ne_exhausted_of_map hreply)
  | acknowledge hc hr htakes => exact Stream.settings_acknowledge hr htakes
  | acknowledgeStuck => exact absurd rfl hreply
  | sweep hr => exact Stream.settings_sweep hr (ne_exhausted_of_map hreply)
  | attend => rfl
  | collectNone => rfl
  | acknowledgeNone => rfl

namespace Stream

variable {s s' : Stream} {b b' : Backend} {clock : Clock}

/-! ## What operations leave -/

/-- What goes for a message besides what is over a limit goes behind it. -/
theorem exists_loses_makeRoom (s : Stream) (m : StoredMessage) (x : Index) :
    ∃ gone, (Retention.enforceLimits s.settings (some m.subject) x).2.Loses gone
      (s.makeRoom m x).2 := by
  simp only [makeRoom]
  split
  · exact ⟨_, Retention.loses_release _ _ _ _⟩
  · exact ⟨[], .refl _⟩

/-- A message that is stored is in the index, without what is over a limit then, and maybe more. -/
theorem storeMessage_eq_ok {m : StoredMessage} {n : Nat}
    (h : s.storeMessage m b = (.ok n, s', b')) :
    ∃ gone, (Retention.enforceLimits s.settings (some m.subject) (s.index.commit m)).2.Loses gone
      s'.index := by
  rcases storeMessage_cases h with ⟨e, -, herror, -⟩ | ⟨b₁, -, ⟨herror, -⟩ | ⟨t, ht, -, rfl, -⟩⟩
  · cases herror
  · cases herror
  · have hindex : t.index = (s.makeRoom m (s.index.commit m)).2 := by rw [ht, index_announce]
    have hroom := exists_loses_makeRoom s m (s.index.commit m)
    rw [← hindex] at hroom
    exact hroom

/-- An accepted publish takes what is too old from the index, puts in a message that there is room
for, and takes what is over a limit, and maybe more. -/
theorem publish_eq_ok {maxPayload : Nat} {e : Expectations} {m : Message} {n : Nat}
    (h : s.publish maxPayload clock e m b = (.ok n, s', b')) :
    ∃ x stored, (∃ gone, s.index.Loses gone x) ∧ stored.sequence = x.lastSeq + 1 ∧
      x.checkRoom s.settings stored.size = .ok () ∧
      ∃ gone, (Retention.enforceLimits s.settings (some stored.subject)
        (x.commit stored)).2.Loses gone s'.index := by
  rcases publish_cases h with ⟨⟨error, herror⟩, -⟩ | ⟨herror, -⟩ | ⟨t, b₁, hevict, hrest⟩
  · cases herror
  · cases herror
  · rcases evict_cases hevict with ⟨herror, -⟩ | ⟨-, rfl, -⟩
    · cases herror
    · have hexpired := Retention.loses_expire s.settings clock.wall.toMicro s.index
      rcases hrest with ⟨⟨error, herror⟩, -⟩ | ⟨-, hroom, hstore⟩
      · cases herror
      · refine ⟨_, _, ⟨_, hexpired⟩, ?_, ?_, storeMessage_eq_ok hstore⟩
        · rfl
        · exact hroom

theorem within_trim (settings : StreamSettings) (now : Timestamp) {x : Index} (hx : x.Coherent) :
    (trim settings now x).2.Within settings :=
  Retention.within_enforceLimits_all settings
    ((Retention.removes_expire settings now x).coherent hx)

/-- What a stream is opened with is within its limits. -/
theorem within_prune (settings : StreamSettings) (now : Timestamp) {x : Index} (hx : x.Coherent) :
    (prune settings now x).2.Within settings := by
  have htrim := within_trim settings now hx
  have hfiled := hx.toFiled.loses (loses_trim settings now x)
  simp only [prune]
  split
  · exact (Retention.loses_releaseUnclaimed _ _).within hfiled htrim
  · exact htrim

theorem within_publish {maxPayload : Nat} {e : Expectations} {m : Message} {n : Nat}
    (hs : s.index.Sound) (hwithin : s.index.Within s.settings)
    (h : s.publish maxPayload clock e m b = (.ok n, s', b')) : s'.index.Within s.settings := by
  obtain ⟨x, stored, ⟨gone, hloses⟩, hnext, -, more, hmore⟩ := publish_eq_ok h
  have hx := (hloses.sound hs).coherent
  have hlt : x.lastSeq < stored.sequence := hnext ▸ Nat.lt_succ_self _
  have hremoves := Retention.removes_enforceLimits s.settings (some stored.subject)
    (x.commit stored)
  exact hmore.within (hremoves.coherent (hx.commit hlt)).toFiled
    (Retention.within_enforceLimits_commit hx hlt (hloses.within hs.coherent.toFiled hwithin))

/-- An accepted publish to a stream that refuses what it has no room for leaves the whole within its
limits. -/
theorem fits_publish {maxPayload : Nat} {e : Expectations} {m : Message} {n : Nat}
    (hs : s.index.Sound) (hdiscard : s.settings.discard = .new)
    (h : s.publish maxPayload clock e m b = (.ok n, s', b')) : s'.index.Fits s.settings := by
  obtain ⟨x, stored, ⟨gone, hloses⟩, hnext, hroom, more, hmore⟩ := publish_eq_ok h
  have hx := (hloses.sound hs).coherent
  have hlt : x.lastSeq < stored.sequence := hnext ▸ Nat.lt_succ_self _
  have hlimits := Retention.loses_enforceLimits s.settings (some stored.subject) (x.commit stored)
  exact (Index.fits_commit hx hlt hdiscard hroom).sublist
    ((hlimits.trans hmore).toList_sublist (hx.commit hlt).toFiled)

end Stream

/-- **An operation leaves the limits kept**, those of the settings that the stream has then. -/
theorem StreamOp.within_run {s s' : Stream} {b b' : Backend} {op : StreamOp} {clock : Clock}
    {reply : Except Error StreamReply} (hs : s.index.Sound) (hwithin : s.index.Within s.settings)
    (hclock : clock.IsDated) (hop : op.IsProper s) (h : op.run clock s b = (reply, s', b'))
    (hreply : reply ≠ .error .numbersExhausted) : s'.index.Within s'.settings := by
  by_cases hchange : ∃ settings, op = .changeSettings settings
  · -- New settings may allow less than before, and what they do not allow goes with the change.
    obtain ⟨settings, rfl⟩ := hchange
    obtain ⟨rfl, hr⟩ := answering_eq h
    rcases Stream.changeSettings_cases hr with ⟨herror, -⟩ | ⟨t, rfl, rfl, -⟩
    · exact absurd herror (ne_exhausted_of_map hreply)
    · exact Stream.within_trim settings clock.wall hs.coherent
  · rw [settings_run (fun settings hop => hchange ⟨settings, hop⟩) h hreply]
    obtain ⟨ms, hmoves, hms⟩ := moves_run hclock hop h hreply
    cases hassigned : (StreamEvent.operated s op reply).assigned with
    | none =>
      rw [hassigned] at hms
      obtain ⟨gone, hloses⟩ := hmoves.run.loses (List.map_eq_nil_iff.1 hms)
      exact hloses.within hs.coherent.toFiled hwithin
    | some n =>
      rw [StreamEvent.assigned_operated.1 hassigned] at h
      obtain ⟨maxPayload, e, m, -, hpublish⟩ := publish_of_stored h
      exact Stream.within_publish hs hwithin hpublish

namespace Stream

variable {s s' : Stream} {b b' : Backend} {clock : Clock} {journal : Option String}

/-! ## The limits throughout a life -/

/-- The limits of a stream hold, and so does what they rest on from one operation to the next. -/
structure Limited (s : Stream) (b : Backend) : Prop where
  /-- What the index keeps beside its messages is right. -/
  sound : s.index.Sound
  /-- The last number has sixty-four bits. -/
  lastSeq_lt : s.index.lastSeq < wordLimit
  /-- The limits that are kept at all times. -/
  within : s.index.Within s.settings
  /-- The journal can be read. -/
  legible : b.Legible s.journal?

theorem Limited.operated (hs : s.Limited b) {op : StreamOp} {reply : Except Error StreamReply}
    (hclock : clock.IsDated) (hop : op.IsProper s) (h : op.run clock s b = (reply, s', b'))
    (hreply : reply ≠ .error .numbersExhausted) : s'.Limited b' := by
  obtain ⟨ms, hmoves, -⟩ := StreamOp.moves_run hclock hop h hreply
  exact {
    sound := hmoves.run.sound hs.sound
    lastSeq_lt := hmoves.run.lastSeq_lt hs.lastSeq_lt
    within := StreamOp.within_run hs.sound hs.within hclock hop h hreply
    legible := hmoves.journal.symm ▸ hmoves.run.legible hs.lastSeq_lt hs.legible }

/-- What was read back may be too much for the settings, but the stream is opened without it. -/
theorem limited_of_open? {id : Nat} {settings : StreamSettings}
    (hb : b.Legible settings.journal?) (h : open? id settings clock b = (.ok s, b')) :
    s.Limited b' := by
  obtain ⟨x, b₁, hread, hsettings, hrun⟩ := moves_of_open? h
  obtain ⟨hx, hb₁⟩ := sound_of_reread hb hread
  have hlt := Nat.lt_of_succ_lt (lastSeq_of_reread hread)
  obtain ⟨y, b₂, hread', rfl, -⟩ := open?_eq_ok h
  obtain ⟨rfl, rfl⟩ : x = y ∧ b₁ = b₂ := by
    rw [hread] at hread'
    cases hread'
    exact ⟨rfl, rfl⟩
  exact {
    sound := hrun.sound hx
    lastSeq_lt := hrun.lastSeq_lt hlt
    within := within_prune settings clock.wall hx.coherent
    legible := hrun.legible hlt hb₁ }

variable {b₀ : Backend} {events : List StreamEvent} {others : Backend → Backend → Prop}

theorem Life.limited (hb₀ : b₀.Legible journal)
    (hothers : ∀ {b b'}, others b b' → b.Legible journal → b'.Legible journal)
    (life : Life others b₀ events s b) (hs : s.journal? = journal) : s.Limited b := by
  induction life with
  | opened hcheck hclock h =>
    obtain ⟨x, b₁, -, rfl, -⟩ := open?_eq_ok h
    rw [← hs] at hb₀
    exact limited_of_open? hb₀ h
  | operated life hop hclock h hreply ih =>
    obtain ⟨ms, hmoves, -⟩ := StreamOp.moves_run hclock hop h hreply
    exact (ih (hmoves.journal.symm.trans hs)).operated hclock hop h hreply
  | reopened life hfile hcheck hname hstorage hclock h ih =>
    obtain ⟨x, b₁, -, rfl, -⟩ := open?_eq_ok h
    have hjournal := journal?_of_reopened hfile hname hstorage
    exact limited_of_open? (hjournal ▸ (ih (hjournal.symm.trans hs)).legible) h
  | elsewhere life h ih =>
    have hlimited := ih hs
    exact { hlimited with legible := hs ▸ hothers h (hs ▸ hlimited.legible) }

/-- **The limits hold after every operation**: at every point of a life, whatever becomes of the
calls to the backend, no subject has more messages than the settings of the stream allow, and the
whole is within its limits if old messages go for new ones.  If new ones are refused instead, no
publish that is accepted leaves the whole over its limits. -/
theorem Life.within_limits (hb₀ : b₀.Legible s.journal?)
    (hothers : ∀ {b b'}, others b b' → b.Legible s.journal? → b'.Legible s.journal?)
    (life : Life others b₀ events s b) :
    s.index.SubjectsFit s.settings ∧ (s.settings.discard = .old → s.index.Fits s.settings) ∧
      ∀ {clock maxPayload e m n s' b'},
        (StreamOp.publish maxPayload e m).run clock s b = (.ok (.stored n), s', b') →
          s'.settings.discard = .new → s'.index.Fits s'.settings := by
  have hlimited := life.limited hb₀ hothers rfl
  refine ⟨hlimited.within.subjects, hlimited.within.whole, ?_⟩
  intro clock maxPayload e m n s' b' h
  obtain ⟨_, _, _, -, hpublish⟩ := StreamOp.publish_of_stored h
  rw [settings_publish hpublish (by simp)]
  exact fun hdiscard => fits_publish hlimited.sound hdiscard hpublish

/-! ## Limits in spite of failures -/

/-- Settings that allow one message a subject, and two in all. -/
def narrowSettings : StreamSettings :=
  { name := "S", subjects := ["a", "b"], maxMessagesPerSubject := some 1, maxMessages := some 2,
    discard := .new }

theorem open?_narrow : open? 0 narrowSettings epochClock blankBackend =
    (.ok ⟨0, narrowSettings, epochClock.wall, .empty, [], [], [], true⟩,
      { blankBackend with calls := [.bounds "stream_S", .readRange "stream_S" 0 1] }) :=
  open?_of_prune_eq rfl (by decide +kernel)

/-- A message that was to go for another one of its subject, but could not be deleted, does not
count when one of another subject comes. -/
theorem limits_kept_when_deletion_fails :
    ∃ events s b s' b', Life (Backend.Disturbance "stream_S") blankBackend events s b ∧
      s.settings = narrowSettings ∧ s.index.SubjectsFit s.settings ∧
      (StreamOp.publish 0 {} ⟨"b", [], []⟩).run epochClock s b = (.ok (.stored 3), s', b') ∧
      s'.index.Fits s'.settings := by
  have hclock : epochClock.IsDated := rfl
  obtain ⟨s₀, b₀, s₁, b₁, s, b, s', b', hopen, hpublish, hpublish', hpublish'', hsettings, hnew⟩ :
      ∃ s₀ b₀ s₁ b₁ s b s' b',
        open? 0 narrowSettings epochClock blankBackend = (.ok s₀, b₀) ∧
        (StreamOp.publish 0 {} ⟨"a", [], []⟩).run epochClock s₀ b₀ = (.ok (.stored 1), s₁, b₁) ∧
        (StreamOp.publish 0 {} ⟨"a", [], []⟩).run epochClock s₁
          { b₁ with faults := [⟨.compactBefore, .io, 0, 1⟩] } = (.ok (.stored 2), s, b) ∧
        (StreamOp.publish 0 {} ⟨"b", [], []⟩).run epochClock s b = (.ok (.stored 3), s', b') ∧
        s.settings = narrowSettings ∧ s'.settings.discard = .new :=
    ⟨_, _, _, _, _, _, _, _, open?_narrow, rfl, rfl, rfl, rfl, rfl⟩
  have life : Life (Backend.Disturbance "stream_S") blankBackend _ s b :=
    (((Life.opened rfl hclock hopen).operated (by trivial) hclock hpublish nofun).elsewhere
      (.failing _)).operated (by trivial) hclock hpublish' nofun
  have hjournal : s.journal? = some "stream_S" := by rw [journal?, hsettings]; rfl
  have hblank : blankBackend.Legible s.journal? := fun ns _ =>
    ⟨SeqMap.empty, (blankBackend_keeps ns).holds, Journal.Mirrors.empty.readable Index.empty_sound⟩
  have hothers {b b' : Backend} (h : Backend.Disturbance "stream_S" b b')
      (hb : b.Legible s.journal?) : b'.Legible s.journal? := by
    rw [hjournal] at hb ⊢
    exact h.legible hb
  obtain ⟨hsubjects, -, hpublished⟩ := life.within_limits hblank hothers
  exact ⟨_, s, b, s', b', life, hsettings, hsubjects, hpublish'', hpublished hpublish'' hnew⟩

end Stream

end StreamBroker
