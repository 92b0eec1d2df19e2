import StreamBroker.Proofs.Index.Recount
import StreamBroker.Proofs.Stream.Moves

/-!
# The time of the last message

A stream tells the time of the message that it accepted last.  No operation changes it but a publish
that is accepted, which brings the time of its clock: messages go without it, whether they are too
old or too many, are settled or needed by nobody, or are to be deleted.

## Main results

* `Stream.lastTimestamp_publish`: a publish brings its time exactly if it is accepted
* `Stream.lastTimestamp_evict`, `Stream.lastTimestamp_purge`, …: the other operations bring none
* `StreamOp.lastTimestamp_run`: only a publish that is accepted changes the time
-/

namespace StreamBroker

namespace Stream

variable {s s' : Stream} {b b' : Backend} {clock : Clock}

/-! ## What is taken from the index -/

theorem lastTimestamp_trim (settings : StreamSettings) (now : Timestamp) (x : Index) :
    (trim settings now x).2.lastTimestamp = x.lastTimestamp :=
  (Retention.removes_enforceLimits settings none _).lastTimestamp_eq.trans
    (Retention.removes_expire settings now x).lastTimestamp_eq

theorem lastTimestamp_prune (settings : StreamSettings) (now : Timestamp) (x : Index) :
    (prune settings now x).2.lastTimestamp = x.lastTimestamp := by
  have htrim := lastTimestamp_trim settings now x
  simp only [prune]
  split
  · exact (Retention.removes_releaseUnclaimed _ _).lastTimestamp_eq.trans htrim
  · exact htrim

theorem lastTimestamp_releasing (s : Stream) (settled : List Nat) (x : Index) :
    (s.releasing settled x).2.lastTimestamp = x.lastTimestamp :=
  (Retention.removes_release _ _ _ x).lastTimestamp_eq

theorem lastTimestamp_makeRoom (s : Stream) (m : StoredMessage) (x : Index) :
    (s.makeRoom m x).2.lastTimestamp = x.lastTimestamp := by
  have hlimits :=
    (Retention.removes_enforceLimits s.settings (some m.subject) x).lastTimestamp_eq
  simp only [makeRoom]
  split
  · exact (lastTimestamp_releasing s _ _).trans hlimits
  · exact hlimits

/-! ## Operations on the log -/

theorem lastTimestamp_evict {now : Timestamp} {reply : Except Error Unit}
    (h : s.evict now b = (reply, s', b')) (hreply : reply ≠ .error .numbersExhausted) :
    s'.index.lastTimestamp = s.index.lastTimestamp := by
  rcases evict_cases h with ⟨rfl, -⟩ | ⟨-, rfl, -⟩
  · exact absurd rfl hreply
  · exact (Retention.removes_expire s.settings now s.index).lastTimestamp_eq

theorem lastTimestamp_releaseUnclaimed {reply : Except Error Unit}
    (h : s.releaseUnclaimed b = (reply, s', b')) (hreply : reply ≠ .error .numbersExhausted) :
    s'.index.lastTimestamp = s.index.lastTimestamp := by
  rcases releaseUnclaimed_cases h with ⟨rfl, -⟩ | ⟨-, -, rfl, -⟩ | ⟨-, rfl, -⟩
  · exact absurd rfl hreply
  · rfl
  · exact (Retention.removes_releaseUnclaimed s.isNeeded s.index).lastTimestamp_eq

/-- A message that is stored brings its time, also when it goes at once. -/
theorem lastTimestamp_storeMessage {m : StoredMessage} {reply : Except Error Nat}
    (h : s.storeMessage m b = (reply, s', b')) (hreply : reply ≠ .error .numbersExhausted) :
    s'.index.lastTimestamp = if reply.isOk then some m.timestamp else s.index.lastTimestamp := by
  rcases storeMessage_cases h with ⟨e, -, rfl, rfl⟩ | ⟨b₁, -, ⟨rfl, -⟩ | ⟨t, rfl, rfl, rfl, -⟩⟩
  · rfl
  · exact absurd rfl hreply
  · show (announce _ m).index.lastTimestamp = some m.timestamp
    rw [index_announce]
    exact lastTimestamp_makeRoom s m (s.index.commit m)

/-- A publish that is accepted brings the time of its clock, and one that is refused brings none,
even if it took what was too old. -/
theorem lastTimestamp_publish {maxPayload : Nat} {e : Expectations} {m : Message}
    {reply : Except Error Nat} (h : s.publish maxPayload clock e m b = (reply, s', b'))
    (hreply : reply ≠ .error .numbersExhausted) :
    s'.index.lastTimestamp =
      if reply.isOk then some clock.wall.toMicro else s.index.lastTimestamp := by
  rcases publish_cases h with ⟨⟨error, rfl⟩, rfl, -⟩ | ⟨rfl, -⟩ | ⟨t, b₁, hevict, hrest⟩
  · rfl
  · exact absurd rfl hreply
  · have ht := lastTimestamp_evict hevict nofun
    rcases hrest with ⟨⟨error, rfl⟩, rfl, -⟩ | ⟨-, -, hstore⟩
    · exact ht
    · rw [lastTimestamp_storeMessage hstore hreply, ht]
      rfl

theorem lastTimestamp_deleteMessage {n : Nat} {reply : Except Error Unit}
    (h : s.deleteMessage n b = (reply, s', b')) (hreply : reply ≠ .error .numbersExhausted) :
    s'.index.lastTimestamp = s.index.lastTimestamp := by
  rcases deleteMessage_cases h with ⟨rfl, -⟩ | ⟨rfl, -⟩ | ⟨rfl, -⟩
  · rfl
  · exact absurd rfl hreply
  · exact (Index.removes_removeAll s.index [n]).lastTimestamp_eq

theorem lastTimestamp_purge {r : PurgeRequest} {reply : Except Error Nat}
    (h : s.purge r b = (reply, s', b')) (hreply : reply ≠ .error .numbersExhausted) :
    s'.index.lastTimestamp = s.index.lastTimestamp := by
  rcases purge_cases h with ⟨rfl, -⟩ | ⟨rfl, -⟩ | ⟨left, t, hleft, rfl, hs', -⟩
  · rfl
  · exact absurd rfl hreply
  · have hremoves := (Index.removes_purge hleft).lastTimestamp_eq
    rcases hs' with rfl | rfl <;> exact hremoves

theorem lastTimestamp_changeSettings {settings : StreamSettings} {reply : Except Error Unit}
    (h : s.changeSettings settings clock b = (reply, s', b'))
    (hreply : reply ≠ .error .numbersExhausted) :
    s'.index.lastTimestamp = s.index.lastTimestamp := by
  rcases changeSettings_cases h with ⟨rfl, -⟩ | ⟨t, rfl, rfl, -⟩
  · exact absurd rfl hreply
  · exact lastTimestamp_trim settings clock.wall s.index

/-! ## Operations of consumers -/

theorem lastTimestamp_upsertConsumer {mode : UpsertMode} {id : Nat} {madeUp : String}
    {defaults : BrokerSettings} {settings : ConsumerSettings} {reply : Except Error Nat}
    (h : s.upsertConsumer mode id madeUp defaults settings clock b = (reply, s', b'))
    (hreply : reply ≠ .error .numbersExhausted) :
    s'.index.lastTimestamp = s.index.lastTimestamp := by
  rcases upsertConsumer_cases h with ⟨rfl, -⟩ | ⟨name, wanted, -, -, -, -, hadd⟩ |
    ⟨c, wanted, changed, -, -, -, -, -, hchange, rfl⟩
  · rfl
  · have hs := addConsumer_eq_ok hadd
    cases hs
    rfl
  · -- A consumer with a narrower filter may need fewer messages, which go at once.
    rcases changeConsumer_cases hchange with ⟨rfl, -⟩ | ⟨t, u, rfl, hrelease, -, rfl⟩
    · exact absurd rfl hreply
    · have hu := lastTimestamp_releaseUnclaimed hrelease nofun
      exact hu

theorem lastTimestamp_deleteConsumer {name : String} {reply : Except Error Unit}
    (h : s.deleteConsumer name b = (reply, s', b')) (hreply : reply ≠ .error .numbersExhausted) :
    s'.index.lastTimestamp = s.index.lastTimestamp := by
  rcases deleteConsumer_cases h with ⟨rfl, -⟩ | ⟨t, hindex, -, -, hrelease⟩
  · rfl
  · rw [lastTimestamp_releaseUnclaimed hrelease hreply, hindex]

theorem lastTimestamp_deleteConsumers {names : List String} {reply : Except Error Unit}
    (h : s.deleteConsumers names b = (reply, s', b')) (hreply : reply ≠ .error .numbersExhausted) :
    s'.index.lastTimestamp = s.index.lastTimestamp := by
  induction names generalizing s b with
  | nil =>
    cases h
    rfl
  | cons name names ih =>
    rcases deleteConsumers_cons_cases h with ⟨rfl, -⟩ | ⟨r, t, b₁, hdelete, hr, hrest⟩
    · exact absurd rfl hreply
    · exact (ih hrest).trans (lastTimestamp_deleteConsumer hdelete hr)

theorem lastTimestamp_sweep {reply : Except Error Unit} (h : s.sweep clock b = (reply, s', b'))
    (hreply : reply ≠ .error .numbersExhausted) :
    s'.index.lastTimestamp = s.index.lastTimestamp := by
  rcases sweep_cases h with ⟨rfl, -⟩ | ⟨t, b₁, names, hevict, hdelete⟩
  · exact absurd rfl hreply
  · exact (lastTimestamp_deleteConsumers hdelete hreply).trans (lastTimestamp_evict hevict nofun)

theorem lastTimestamp_collect {c : Consumer} {l : Cursor.Limits} {reply : Except Error Collected}
    (h : s.collect c l clock b = (reply, s', b')) (hreply : reply ≠ .error .numbersExhausted) :
    s'.index.lastTimestamp = s.index.lastTimestamp := by
  rcases collect_cases h with ⟨rfl, -⟩ | ⟨t, rfl, hhand⟩
  · exact absurd rfl hreply
  · rcases handOut_cases hhand with ⟨rfl, -⟩ | ⟨u, rfl, rfl, -⟩
    · exact absurd rfl hreply
    · -- What expired went first, and then what is settled.
      exact (lastTimestamp_releasing _ _ _).trans
        (Retention.removes_expire s.settings clock.wall s.index).lastTimestamp_eq

theorem lastTimestamp_acknowledge {c : Consumer} {n : Nat} {kind : AckKind}
    {reply : Except Error Unit} (h : s.acknowledge c n kind clock b = (reply, s', b'))
    (htakes : s'.takesAcks = true) : s'.index.lastTimestamp = s.index.lastTimestamp := by
  rcases acknowledge_cases h with ⟨rfl, -⟩ | ⟨hstuck, -⟩ | ⟨t, u, settled, -, rfl, rfl, rfl, -⟩
  · rfl
  · rw [hstuck] at htakes
    cases htakes
  · exact lastTimestamp_releasing _ settled s.index

end Stream

/-! ## All operations -/

namespace StreamOp

variable {s s' : Stream} {b b' : Backend} {op : StreamOp} {clock : Clock}
  {reply : Except Error StreamReply}

/-- **Only a publish that is accepted changes the last time**, to that of its clock. -/
theorem lastTimestamp_run (h : op.run clock s b = (reply, s', b'))
    (hreply : reply ≠ .error .numbersExhausted) :
    s'.index.lastTimestamp =
      if (StreamEvent.operated s op reply).assigned.isSome then some clock.wall.toMicro
      else s.index.lastTimestamp := by
  have hsame {α : Type} {f : α → StreamReply} {r : Except Error α} (op : StreamOp)
      (hf : ∀ a n, f a ≠ .stored n) (heq : s'.index.lastTimestamp = s.index.lastTimestamp) :
      s'.index.lastTimestamp =
        if (StreamEvent.operated s op (r.map f)).assigned.isSome then some clock.wall.toMicro
        else s.index.lastTimestamp := by
    rw [assigned_map hf]
    exact heq
  cases outcome_run h with
  | @publish _ _ _ r _ _ hr =>
    rw [Stream.lastTimestamp_publish hr (ne_exhausted_of_map hreply)]
    cases r <;> rfl
  | deleteMessage hr =>
    exact hsame _ nofun (Stream.lastTimestamp_deleteMessage hr (ne_exhausted_of_map hreply))
  | purge hr => exact hsame _ nofun (Stream.lastTimestamp_purge hr (ne_exhausted_of_map hreply))
  | evict hr => exact hsame _ nofun (Stream.lastTimestamp_evict hr (ne_exhausted_of_map hreply))
  | changeSettings hr =>
    exact hsame _ nofun (Stream.lastTimestamp_changeSettings hr (ne_exhausted_of_map hreply))
  | upsertConsumer hr =>
    exact hsame _ nofun (Stream.lastTimestamp_upsertConsumer hr (ne_exhausted_of_map hreply))
  | deleteConsumer hr =>
    exact hsame _ nofun (Stream.lastTimestamp_deleteConsumer hr (ne_exhausted_of_map hreply))
  | collect hc hr =>
    exact hsame _ nofun (Stream.lastTimestamp_collect hr (ne_exhausted_of_map hreply))
  | acknowledge hc hr htakes =>
    exact hsame _ nofun (Stream.lastTimestamp_acknowledge hr htakes)
  | acknowledgeStuck hr => exact absurd rfl hreply
  | sweep hr => exact hsame _ nofun (Stream.lastTimestamp_sweep hr (ne_exhausted_of_map hreply))
  | attend => rfl
  -- A consumer that does not exist has nothing done for it.
  | collectNone => rfl
  | acknowledgeNone => rfl

end StreamOp

end StreamBroker
