import StreamBroker.Proofs.Cursor.Rests
import StreamBroker.Proofs.Stream.Staff

/-!
# Consumers are told, or have nothing new

An operation on a stream tells a consumer to look again, or it leaves the cursor of the consumer at
rest.  What is stored, what is acknowledged and what is changed is told.  What goes is not always
told, and so there is one condition: a consumer that is to find nothing although nobody told it must
still have all messages that are pending with it.

## Main definitions

* `Stream.KeepsPending`: the messages that are pending with a consumer are there
* `Stream.LeavesResting`: a consumer is told to look again, or left at rest
* `Stream.Shrinks`: messages and consumers go, and no consumer changes
* `Stream.Attends`: all consumers are told to look again, or left at rest

## Main results

* `Stream.rests_collect`: a pull that got nothing leaves its consumer at rest
* `StreamOp.attends_run`: an operation tells a consumer to look again, or leaves it at rest
-/

namespace StreamBroker

namespace Stream

variable {s s' t u : Stream} {b b' : Backend} {clock : Clock} {c c' : Consumer} {id : Nat}

/-- The messages that are pending with a consumer are in the stream, and none of them is too old. -/
def KeepsPending (s : Stream) (now : Timestamp) (c : Consumer) : Prop :=
  ∀ n, c.cursor.pending.contains n = true →
    (Retention.expire s.settings now s.index).2.contains n = true

instance (s : Stream) (now : Timestamp) (c : Consumer) : Decidable (s.KeepsPending now c) :=
  decidable_of_iff (∀ n ∈ c.cursor.pending.keys,
      (Retention.expire s.settings now s.index).2.contains n = true)
    (forall_congr' fun _ => by rw [SeqMap.mem_keys_iff])

/-- What becomes of a stream and one of its consumers at an instant: the consumer is told to look
again, or its cursor is left at rest if it had been, provided the messages that were pending with it
were there. -/
def LeavesResting (s : Stream) (clock : Clock) (c : Consumer) (s' : Stream) (c' : Consumer) :
    Prop :=
  c.signal < c'.signal ∨ c.signal = c'.signal ∧
    ∀ wake, clock.elapsed < wake → s.KeepsPending clock.wall c → c.cursor.Rests s.index wake →
      c'.cursor.Rests s'.index wake

/-- Nothing happens to a consumer that would matter to its rest. -/
def KeepsRest (s : Stream) (c : Consumer) (s' : Stream) (c' : Consumer) : Prop :=
  c.signal = c'.signal ∧ ∀ wake, c.cursor.Rests s.index wake → c'.cursor.Rests s'.index wake

theorem KeepsRest.refl (s : Stream) (c : Consumer) : s.KeepsRest c s c := ⟨rfl, fun _ h => h⟩

theorem KeepsRest.leavesResting (h : s.KeepsRest c s' c') : s.LeavesResting clock c s' c' :=
  .inr ⟨h.1, fun wake _ _ hrests => h.2 wake hrests⟩

theorem LeavesResting.trans {d : Consumer} (h : s.LeavesResting clock c t d)
    (h' : t.KeepsRest d u c') : s.LeavesResting clock c u c' := by
  rcases h with hlt | ⟨heq, hrests⟩
  · exact .inl (h'.1 ▸ hlt)
  · exact .inr ⟨heq.trans h'.1, fun wake hnow hkeeps hc => h'.2 wake (hrests wake hnow hkeeps hc)⟩

/-! ## What goes -/

/-- Messages and consumers go from a stream, and no consumer changes. -/
structure Shrinks (s s' : Stream) : Prop where
  /-- The stream is still the same. -/
  id_eq : s'.id = s.id
  /-- The consumers that are left are as they were. -/
  mem : ∀ c ∈ s'.consumers, c ∈ s.consumers
  /-- The messages that are left are as they were. -/
  get?_eq : ∀ n m, s'.index.get? n = some m → s.index.get? n = some m

namespace Shrinks

theorem refl (s : Stream) : s.Shrinks s := ⟨rfl, fun _ h => h, fun _ _ h => h⟩

theorem trans (h : s.Shrinks t) (h' : t.Shrinks u) : s.Shrinks u :=
  ⟨h'.id_eq.trans h.id_eq, fun c hc => h.mem c (h'.mem c hc),
    fun n m hm => h.get?_eq n m (h'.get?_eq n m hm)⟩

theorem of_loses {x : Index} {gone : List Nat} (h : s.index.Loses gone x) :
    s.Shrinks { s with index := x } := ⟨rfl, fun _ hc => hc, fun _ _ hm => h.get?_of_get? hm⟩

end Shrinks

theorem shrinks_evict {now : Timestamp} {reply : Except Error Unit}
    (h : s.evict now b = (reply, s', b')) (hreply : reply ≠ .error .numbersExhausted) :
    s.Shrinks s' := by
  rcases evict_cases h with ⟨rfl, -⟩ | ⟨-, rfl, -⟩
  · exact absurd rfl hreply
  · exact .of_loses (Retention.loses_expire _ _ _)

theorem shrinks_releaseUnclaimed {reply : Except Error Unit}
    (h : s.releaseUnclaimed b = (reply, s', b')) (hreply : reply ≠ .error .numbersExhausted) :
    s.Shrinks s' := by
  rcases releaseUnclaimed_cases h with ⟨rfl, -⟩ | ⟨-, -, rfl, -⟩ | ⟨-, rfl, -⟩
  · exact absurd rfl hreply
  · exact .refl _
  · exact .of_loses (Retention.loses_releaseUnclaimed _ _)

theorem shrinks_deleteMessage {n : Nat} {reply : Except Error Unit}
    (h : s.deleteMessage n b = (reply, s', b')) (hreply : reply ≠ .error .numbersExhausted) :
    s.Shrinks s' := by
  rcases deleteMessage_cases h with ⟨rfl, -⟩ | ⟨rfl, -⟩ | ⟨rfl, -⟩
  · exact .refl _
  · exact absurd rfl hreply
  · exact .of_loses (Index.loses_removeAll _ _)

theorem shrinks_deleteConsumer {name : String} {reply : Except Error Unit}
    (h : s.deleteConsumer name b = (reply, s', b')) (hreply : reply ≠ .error .numbersExhausted) :
    s.Shrinks s' := by
  rw [deleteConsumer] at h
  split at h
  · cases h
    exact .refl _
  · next c hc =>
    have hdelete : s.Shrinks { s with
        consumers := s.consumers.filter fun d => d.name != name
        formerConsumers := c.notify :: s.formerConsumers } :=
      ⟨rfl, fun c hc => (List.mem_filter.1 hc).1, fun _ _ hm => hm⟩
    exact hdelete.trans (shrinks_releaseUnclaimed h hreply)

theorem shrinks_deleteConsumers {names : List String} {reply : Except Error Unit}
    (h : s.deleteConsumers names b = (reply, s', b')) (hreply : reply ≠ .error .numbersExhausted) :
    s.Shrinks s' := by
  induction names generalizing s b reply with
  | nil =>
    cases h
    exact .refl _
  | cons name names ih =>
    rcases deleteConsumers_cons_cases h with ⟨rfl, -⟩ | ⟨r, t, b₁, hdelete, hr, hrest⟩
    · exact absurd rfl hreply
    · exact (shrinks_deleteConsumer hdelete hr).trans (ih hrest hreply)

theorem shrinks_sweep {reply : Except Error Unit} (h : s.sweep clock b = (reply, s', b'))
    (hreply : reply ≠ .error .numbersExhausted) : s.Shrinks s' := by
  rcases sweep_cases h with ⟨rfl, -⟩ | ⟨t, b₁, names, hevict, hdelete⟩
  · exact absurd rfl hreply
  · exact (shrinks_evict hevict (by simp)).trans (shrinks_deleteConsumers hdelete hreply)

/-! ## What is told -/

/-- A consumer comes from one of a stream, which was told to look again or left at rest. -/
def Descends (s : Stream) (clock : Clock) (s' : Stream) (c' : Consumer) : Prop :=
  ∃ c ∈ s.consumers, c.id = c'.id ∧ s.LeavesResting clock c s' c'

/-- A stream is still the same, and its consumers were told to look again or left at rest. -/
structure Attends (s : Stream) (clock : Clock) (s' : Stream) : Prop where
  /-- The stream is still the same. -/
  id_eq : s'.id = s.id
  /-- Its consumers were told or left at rest. -/
  descends : ∀ c' ∈ s'.consumers, s.Descends clock s' c'

theorem Shrinks.attends (h : s.Shrinks s') : s.Attends clock s' where
  id_eq := h.id_eq
  descends c' hc := ⟨c', h.mem c' hc, rfl, .inr ⟨rfl, fun _ _ _ hrests =>
    hrests.of_subset h.get?_eq⟩⟩

/-- All consumers are told to look again. -/
theorem attends_of_notifyAll (hid : t.id = s.id) (h : t.consumers = s.consumers) :
    s.Attends clock t.notifyAll where
  id_eq := hid
  descends c' hc := by
    obtain ⟨c, hmem, rfl⟩ := List.mem_map.1 hc
    exact ⟨c, h ▸ hmem, rfl, .inl (Nat.lt_succ_self _)⟩

/-- Where one consumer is changed, the others are as they were. -/
theorem exists_of_mem_modifyConsumer {f : Consumer → Consumer}
    (h : c' ∈ (s.modifyConsumer id f).consumers) :
    ∃ c ∈ s.consumers, (c.id = id ∧ c' = f c) ∨ (c.id ≠ id ∧ c' = c) := by
  obtain ⟨c, hc, rfl⟩ := List.mem_map.1 h
  refine ⟨c, hc, ?_⟩
  by_cases heq : c.id = id
  · exact .inl ⟨heq, if_pos (beq_iff_eq.2 heq)⟩
  · exact .inr ⟨heq, if_neg (by simpa using heq)⟩

/-- One consumer is told to look again, and messages go. -/
theorem attends_of_modifyConsumer {f : Consumer → Consumer} (hid : s'.id = s.id)
    (h : s'.consumers = (s.modifyConsumer id f).consumers) (hf : ∀ c, (f c).id = c.id)
    (hsignal : ∀ c, c.signal < (f c).signal)
    (hindex : ∀ n m, s'.index.get? n = some m → s.index.get? n = some m) :
    s.Attends clock s' where
  id_eq := hid
  descends c' hc := by
    obtain ⟨c, hmem, ⟨-, rfl⟩ | ⟨-, rfl⟩⟩ := exists_of_mem_modifyConsumer (h ▸ hc)
    · exact ⟨c, hmem, (hf c).symm, .inl (hsignal c)⟩
    · exact ⟨_, hmem, rfl, .inr ⟨rfl, fun _ _ _ hrests => hrests.of_subset hindex⟩⟩

theorem attends_publish {maxPayload : Nat} {e : Expectations} {m : Message}
    {reply : Except Error Nat} (h : s.publish maxPayload clock e m b = (reply, s', b'))
    (hreply : reply ≠ .error .numbersExhausted) : s.Attends clock s' := by
  rcases publish_cases h with ⟨-, rfl, -⟩ | ⟨rfl, -⟩ | ⟨t, b₁, hevict, hrest⟩
  · exact (Shrinks.refl _).attends
  · exact absurd rfl hreply
  · have ht := shrinks_evict hevict (by simp)
    rcases hrest with ⟨-, rfl, -⟩ | ⟨-, -, hstore⟩
    · exact ht.attends
    · rcases storeMessage_cases hstore with ⟨e, -, -, rfl⟩ | ⟨b₂, -, ⟨rfl, -⟩ | ⟨u, hu, -, rfl, -⟩⟩
      · exact ht.attends
      · exact absurd rfl hreply
      · have hconsumers := consumers_evict hevict (by simp)
        refine attends_of_notifyAll ?_ ?_
        · rw [hu, announce, ← ht.id_eq]
          split <;> rfl
        · rw [hu, consumers_announce, ← hconsumers]

theorem attends_purge {r : PurgeRequest} {reply : Except Error Nat}
    (h : s.purge r b = (reply, s', b')) (hreply : reply ≠ .error .numbersExhausted) :
    s.Attends clock s' := by
  rcases purge_cases h with ⟨rfl, -⟩ | ⟨rfl, -⟩ | ⟨left, t, hleft, rfl, rfl | rfl, -⟩
  · exact (Shrinks.refl _).attends
  · exact absurd rfl hreply
  · exact (Shrinks.of_loses (Index.loses_purge hleft)).attends
  · exact attends_of_notifyAll rfl rfl

theorem attends_changeSettings {settings : StreamSettings} {reply : Except Error Unit}
    (h : s.changeSettings settings clock b = (reply, s', b'))
    (hreply : reply ≠ .error .numbersExhausted) : s.Attends clock s' := by
  rcases changeSettings_cases h with ⟨rfl, -⟩ | ⟨t, rfl, rfl, -⟩
  · exact absurd rfl hreply
  · exact attends_of_notifyAll rfl rfl

/-- A consumer that is changed is told to look again. -/
theorem attends_changeConsumer {settings : ConsumerSettings} {reply : Except Error Unit}
    (h : s.changeConsumer c settings b = (reply, s', b'))
    (hreply : reply ≠ .error .numbersExhausted) : s.Attends clock s' := by
  rcases changeConsumer_cases h with ⟨rfl, -⟩ | ⟨t, u, rfl, hrelease, rfl, rfl⟩
  · exact absurd rfl hreply
  · have hshrinks := shrinks_releaseUnclaimed hrelease (by simp)
    have hconsumers := consumers_releaseUnclaimed hrelease (by simp)
    exact attends_of_modifyConsumer hshrinks.id_eq
      (consumers_modifyConsumer_notify hconsumers fun _ => rfl) (fun _ => rfl)
      (fun c => Nat.lt_succ_self c.signal) hshrinks.get?_eq

/-- A consumer that acknowledges is told to look again: a delivery that is settled makes room. -/
theorem attends_acknowledge {n : Nat} {kind : AckKind} {reply : Except Error Unit}
    (h : s.acknowledge c n kind clock b = (reply, s', b')) (htakes : s'.takesAcks = true) :
    s.Attends clock s' := by
  rcases acknowledge_cases h with ⟨rfl, -⟩ | ⟨hstuck, -⟩ | ⟨t, u, settled, -, ht, hu, rfl, -⟩
  · exact (Shrinks.refl _).attends
  · rw [hstuck] at htakes
    cases htakes
  · have hloses := loses_releasing t settled t.index
    have hconsumers : u.consumers = (s.modifyConsumer c.id
        (·.mapCursor fun _ => (c.cursor.acknowledge n kind clock.elapsed).2)).consumers := by
      rw [hu, ht]
    have hid : u.id = s.id := by
      rw [hu, ht]
      rfl
    refine attends_of_modifyConsumer hid (consumers_modifyConsumer_notify hconsumers fun _ => rfl)
      (fun _ => rfl) (fun c => Nat.lt_succ_self c.signal) fun k w hw => ?_
    rw [hu, modifyConsumer] at hw
    have hw := hloses.get?_of_get? hw
    rwa [ht] at hw

/-! ## What is handed out -/

/-- What a hand-out leaves: the cursor of one consumer has come to another place, and messages have
gone. -/
theorem collect_eq {l : Cursor.Limits} {reply : Except Error Collected}
    (h : s.collect c l clock b = (reply, s', b')) (hreply : reply ≠ .error .numbersExhausted) :
    ∃ x haul cursor, (∃ gone, s.index.Loses gone x) ∧
      x = (Retention.expire s.settings clock.wall s.index).2 ∧
      c.cursor.collect x l clock.elapsed = (cursor, haul) ∧ s'.id = s.id ∧
      s'.consumers = (s.modifyConsumer c.id (·.mapCursor fun _ => cursor)).consumers ∧
      (∃ gone, x.Loses gone s'.index) ∧
      ∀ collected, reply = .ok collected → collected.deliveries = haul.deliveries ∧
        collected.nextDeadline = cursor.nextDeadline ∧ oversizedError haul = none := by
  rcases collect_cases h with ⟨rfl, -⟩ | ⟨t, rfl, hhand⟩
  · exact absurd rfl hreply
  · cases hcollect : c.cursor.collect (Retention.expire s.settings clock.wall s.index).2 l
      clock.elapsed with | mk cursor haul
    simp only [hcollect] at hhand
    refine ⟨_, haul, cursor, ⟨_, Retention.loses_expire s.settings clock.wall s.index⟩, rfl,
      hcollect, ?_⟩
    -- Messages go twice: what is too old before the hand-out, what it settled behind it.
    rcases handOut_cases hhand with ⟨rfl, -⟩ | ⟨u, rfl, rfl, -⟩
    · exact absurd rfl hreply
    · refine ⟨rfl, rfl, ⟨_, loses_releasing _ _ _⟩, ?_⟩
      rintro collected rfl
      simp only [handOut] at hhand
      split at hhand
      · cases hhand
      · split at hhand
        · cases hhand
        · next hfits =>
          cases hhand
          exact ⟨rfl, rfl, hfits⟩

/-- A pull that comes in between gets nothing either, so it leaves a cursor at rest. -/
theorem attends_collect (hs : s.Roster) (hmem : c ∈ s.consumers) {l : Cursor.Limits}
    {reply : Except Error Collected} (h : s.collect c l clock b = (reply, s', b'))
    (hreply : reply ≠ .error .numbersExhausted) : s.Attends clock s' := by
  obtain ⟨x, haul, cursor, ⟨expired, hexpire⟩, hx, hcollect, hid, hconsumers, ⟨gone, hleft⟩, -⟩ :=
    collect_eq h hreply
  refine ⟨hid, fun c' hc => ?_⟩
  rw [hconsumers] at hc
  obtain ⟨d, hd, ⟨heq, rfl⟩ | ⟨-, rfl⟩⟩ := exists_of_mem_modifyConsumer hc
  · obtain rfl := hs.eq_of_id hd hmem heq
    refine ⟨d, hd, rfl, .inr ⟨rfl, fun wake hnow hkeeps hrests => ?_⟩⟩
    have hpending : ∀ n, d.cursor.pending.contains n = true → x.contains n = true := hx ▸ hkeeps
    have hrests := hrests.of_subset fun n m hm => hexpire.get?_of_get? hm
    have hafter := (hrests.collect_eq (l := l) (hs.filed.loses hexpire) hnow hpending).2
    rw [hcollect] at hafter
    exact hafter.of_subset fun n m hm => hleft.get?_of_get? hm
  · refine ⟨_, hd, rfl, .inr ⟨rfl, fun _ _ _ hrests => hrests.of_subset fun n m hm => ?_⟩⟩
    exact hexpire.get?_of_get? (hleft.get?_of_get? hm)

/-- A pull that got nothing leaves its consumer at rest until it is to look again. -/
theorem rests_collect (hs : s.Roster) (hmem : c ∈ s.consumers) {l : Cursor.Limits}
    (hbatch : l.batch ≠ 0) {collected : Collected}
    (h : s.collect c l clock b = (.ok collected, s', b')) (hnone : collected.deliveries = [])
    {wake : Instant} (hwake : ∀ i ∈ collected.nextDeadline, wake ≤ i) :
    ∃ c' ∈ s'.consumers, c'.id = c.id ∧ c'.signal = c.signal ∧ c'.cursor.Rests s'.index wake := by
  obtain ⟨x, haul, cursor, ⟨expired, hexpire⟩, -, hcollect, -, hconsumers, ⟨gone, hleft⟩, hok⟩ :=
    collect_eq h (by simp)
  obtain ⟨hdeliveries, hdeadline, hfits⟩ := hok collected rfl
  rw [hnone] at hdeliveries
  have hoversized : haul.oversized = none := by
    rw [oversizedError, ← hdeliveries, List.isEmpty_nil, if_pos rfl, Option.map_eq_none_iff]
      at hfits
    exact hfits
  have hrests := Cursor.rests_of_collect (hs.filed.loses hexpire) hbatch hcollect
    hdeliveries.symm hoversized (hdeadline ▸ hwake)
  refine ⟨c.mapCursor fun _ => cursor, ?_, rfl, rfl, hrests.of_subset fun n m hm => ?_⟩
  · rw [hconsumers]
    exact List.mem_map.2 ⟨c, hmem, if_pos (beq_self_eq_true c.id)⟩
  · exact hleft.get?_of_get? hm

/-- Attending to a consumer leaves its cursor as it is. -/
theorem keepsRest_attend {id : Nat} {a : Attendance} {now : Instant}
    (hc : c' ∈ (s.modifyConsumer id (a.change now)).consumers) :
    ∃ c ∈ s.consumers, c.id = c'.id ∧ s.KeepsRest c (s.modifyConsumer id (a.change now)) c' := by
  obtain ⟨c, hmem, ⟨-, rfl⟩ | ⟨-, rfl⟩⟩ := exists_of_mem_modifyConsumer hc
  · refine ⟨c, hmem, by cases a <;> rfl, by cases a <;> rfl, fun wake hrests => ?_⟩
    cases a <;> exact hrests.congr ⟨rfl, rfl, rfl, rfl, rfl⟩ rfl
  · exact ⟨_, hmem, rfl, rfl, fun _ hrests => hrests⟩

theorem attends_attend (id : Nat) (a : Attendance) (clock : Clock) :
    s.Attends clock (s.modifyConsumer id (a.change clock.elapsed)) where
  id_eq := rfl
  descends c' hc := by
    obtain ⟨c, hmem, hid, hkeeps⟩ := keepsRest_attend hc
    exact ⟨c, hmem, hid, hkeeps.leavesResting⟩

end Stream

namespace StreamOp

variable {s s' : Stream} {b b' : Backend} {op : StreamOp} {clock : Clock} {c' : Consumer}
  {reply : Except Error StreamReply}

open StreamBroker.Stream

/-- **An operation tells a consumer to look again, or leaves it at rest**, unless it creates the
consumer. -/
theorem attends_run (hs : s.Roster) (h : op.run clock s b = (reply, s', b'))
    (hreply : reply ≠ .error .numbersExhausted) :
    s'.id = s.id ∧ ∀ c' ∈ s'.consumers, s.Descends clock s' c' ∨
      ∃ mode madeUp defaults settings,
        op = .upsertConsumer mode c'.id madeUp defaults settings := by
  have hall (h : s.Attends clock s') : s'.id = s.id ∧ ∀ c' ∈ s'.consumers, s.Descends clock s' c' ∨
      ∃ mode madeUp defaults settings, op = .upsertConsumer mode c'.id madeUp defaults settings :=
    ⟨h.id_eq, fun c' hc => .inl (h.descends c' hc)⟩
  cases outcome_run h with
  | publish hr => exact hall (attends_publish hr (ne_exhausted_of_map hreply))
  | deleteMessage hr => exact hall (shrinks_deleteMessage hr (ne_exhausted_of_map hreply)).attends
  | purge hr => exact hall (attends_purge hr (ne_exhausted_of_map hreply))
  | evict hr => exact hall (shrinks_evict hr (ne_exhausted_of_map hreply)).attends
  | changeSettings hr => exact hall (attends_changeSettings hr (ne_exhausted_of_map hreply))
  | deleteConsumer hr => exact hall (shrinks_deleteConsumer hr (ne_exhausted_of_map hreply)).attends
  | sweep hr => exact hall (shrinks_sweep hr (ne_exhausted_of_map hreply)).attends
  | collect hfind hr =>
    exact hall (attends_collect hs (List.mem_of_find?_eq_some hfind) hr
      (ne_exhausted_of_map hreply))
  | acknowledge hfind hr htakes => exact hall (attends_acknowledge hr htakes)
  | acknowledgeStuck => exact absurd rfl hreply
  | attend => exact hall (attends_attend _ _ _)
  | collectNone => exact hall (Shrinks.refl _).attends
  | acknowledgeNone => exact hall (Shrinks.refl _).attends
  | @upsertConsumer mode id madeUp defaults settings r _ _ hr =>
    rcases upsertConsumer_cases hr with ⟨rfl, -⟩ | ⟨name, wanted, -, -, -, -, hadd⟩ |
      ⟨c, wanted, changed, -, -, -, -, -, hchanged, rfl⟩
    · exact hall (Shrinks.refl _).attends
    · have hs' := (Prod.mk.inj (addConsumer_eq_ok hadd)).2
      refine ⟨by rw [hs'], fun c' hc => ?_⟩
      rw [hs', List.mem_append, List.mem_singleton] at hc
      rcases hc with hc | rfl
      · refine .inl ⟨c', hc, rfl, .inr ⟨rfl, fun _ _ _ hrests => ?_⟩⟩
        rwa [hs']
      · -- Only who is new descends from nobody.
        exact .inr ⟨mode, madeUp, defaults, settings, rfl⟩
    · refine hall (attends_changeConsumer hchanged ?_)
      rintro rfl
      exact hreply rfl

end StreamOp

end StreamBroker
