import StreamBroker.Proofs.Broker.Ledger
import StreamBroker.Proofs.Stream.Standing

/-!
# What consumers of a broker are up to

What is noted of the consumers of a stream is noted of those of a broker: which are there, how many
pulls wait for one, whether it has a subscription, and when it last did something.  This module says
what becomes of it when something is done to the broker.

## Main definitions

* `Broker.Employs`: a consumer is there

## Main results

* `Broker.Staffed.has_modifyConsumer`, `Broker.Staffed.has_onStream`, `Broker.Staffed.has_glance`:
  what becomes of a consumer that is attended to, of those of a stream that is operated on, and of
  one that is looked at
* `Broker.Staffed.employs_sweep_iff`: which consumers are there after a sweep
-/

namespace StreamBroker

/-- A consumer is new, and nothing is noted of it but that it is there. -/
structure Consumer.IsNew (c : Consumer) (now : Instant) : Prop where
  /-- It has no subscription. -/
  bound_eq : c.bound = false
  /-- No pull waits for it. -/
  waiting_eq : c.cursor.waiting = 0
  /-- It was active now. -/
  lastActive_eq : c.cursor.lastActive = now
  /-- Its settings are acceptable. -/
  settings : c.cursor.settings.IsAccepted

namespace Broker

variable {b b' : Broker} {s s' t : Stream} {c c' : Consumer} {stream consumer id : Nat} {p : Pull}

/-- A consumer is there. -/
def Employs (b : Broker) (stream consumer : Nat) : Prop := ∃ s c, b.Has stream consumer s c

/-- A consumer is there if it can be told that it is. -/
theorem Staffed.employs_iff (hb : b.Staffed) :
    b.Employs stream consumer ↔ (b.liveConsumer stream consumer).isOk = true := by
  constructor
  · rintro ⟨s, c, hhas⟩
    rw [hb.liveConsumer_of_has hhas]
    rfl
  · intro hok
    cases hlive : b.liveConsumer stream consumer with
    | error e =>
      rw [hlive] at hok
      cases hok
    | ok found => exact ⟨found.1, found.2, hb.has_of_liveConsumer hlive⟩

/-- A consumer that is there belongs to the stream that was put, or to another one. -/
theorem has_putStream (h : (b.putStream s').Has stream consumer t c) :
    stream = s'.id ∧ c ∈ s'.consumers ∧ c.id = consumer ∨
      stream ≠ s'.id ∧ b.Has stream consumer t c := by
  rcases mem_map_put h.mem_streams with ⟨rfl, -⟩ | ⟨hmem, hne⟩
  · exact .inl ⟨h.stream_eq.symm, h.mem_consumers, h.consumer_eq⟩
  · exact .inr ⟨fun heq => hne (h.stream_eq.trans heq), hmem, h.stream_eq, h.mem_consumers,
      h.consumer_eq⟩

/-- A consumer is attended to, and no other. -/
theorem Staffed.has_modifyConsumer (hb : b.Staffed) {stream' consumer' : Nat}
    {f : Consumer → Consumer} (hf : ∀ c, (f c).id = c.id)
    (h : (b.modifyConsumer stream' consumer' f).Has stream consumer s' c') :
    ∃ s c, b.Has stream consumer s c ∧
      c' = if stream = stream' ∧ consumer = consumer' then f c else c := by
  rw [modifyConsumer] at h
  split at h
  · next s hfind =>
    have hid : s.id = stream' := by simpa using List.find?_some hfind
    rcases has_putStream h with ⟨rfl, hc, hc_id⟩ | ⟨hne, hhas⟩
    · obtain ⟨c, hmem, rfl⟩ := List.mem_map.1 hc
      have hc_id' : c.id = consumer := by
        split at hc_id
        · rw [← hc_id, hf]
        · exact hc_id
      -- A stream that was deleted has no consumers.
      have hs : s ∈ b.streams := by
        refine (List.mem_append.1 (List.mem_of_find?_eq_some hfind)).resolve_right fun hs => ?_
        rw [hb.consumers_eq s hs] at hmem
        cases hmem
      refine ⟨s, c, ⟨hs, rfl, hmem, hc_id'⟩, ?_⟩
      have hsame : (s.modifyConsumer consumer' f).id = stream' := hid
      simp only [hsame, hc_id', true_and, beq_iff_eq]
    · exact ⟨s', c', hhas, (if_neg fun heq => hne (heq.1.trans hid.symm)).symm⟩
  · next hnone =>
    refine ⟨s', c', h, (if_neg fun heq => ?_).symm⟩
    have hfound := hb.streamById?_eq h.mem_streams
    rw [h.stream_eq, heq.1, hnone] at hfound
    cases hfound

/-- **An operation leaves what is noted of consumers**, except that the one that does it is active
now, or a consumer is new. -/
theorem Staffed.has_onStream (hb : b.Staffed) {next : Nat} {op : StreamOp}
    (hattend : ∀ i a, op ≠ .attend i a)
    (hreply : (onStream id (op.run b.clock) { b with nextId := next }).1 ≠
      .error .numbersExhausted)
    (h : (onStream id (op.run b.clock) { b with nextId := next }).2.Has stream consumer s' c') :
    (∃ s c, b.Has stream consumer s c ∧
      c.Stays b.now (decide (stream = id) && op.isDoneBy consumer) c') ∨
    ∃ mode madeUp defaults settings,
      op = .upsertConsumer mode consumer madeUp defaults settings ∧ c'.IsNew b.now := by
  cases operates id next op b with
  | missed hlive heq =>
    rw [heq] at h
    have hhas : b.Has stream consumer s' c' := ⟨h.1, h.2, h.3, h.4⟩
    have hne : stream ≠ id := by
      rintro rfl
      rw [← hhas.stream_eq, hb.liveStream_eq hhas.mem_streams] at hlive
      cases hlive
    rw [decide_eq_false hne, Bool.false_and]
    exact .inl ⟨s', c', hhas, .refl _ c'⟩
  | @ran s t backend reply hlive hr heq =>
    rw [heq] at hreply h
    obtain ⟨hmem, rfl⟩ := liveStream_eq_ok hlive
    have htid := (StreamOp.attends_run (hb.roster s hmem) hr hreply).1
    rcases has_putStream h with ⟨rfl, hc, hid⟩ | ⟨hne, hhas⟩
    · rcases StreamOp.stays_run (hb.roster s hmem) hattend hr hreply with hstays | hnew
      · obtain ⟨c, hc, hstays⟩ := hstays c' hc
        rw [htid, decide_eq_true rfl, Bool.true_and, ← hid, hstays.id_eq]
        exact .inl ⟨s, c, ⟨hmem, rfl, hc, rfl⟩, hstays⟩
      · -- To ask for a consumer does nothing with one that is there.
        obtain ⟨mode, i, madeUp, defaults, settings, rfl, hnew⟩ := hnew
        rcases hnew.consumers c' hc with hc | ⟨rfl, hbound, hwaiting, hactive, hsettings⟩
        · rw [htid]
          refine .inl ⟨s, c', ⟨hmem, rfl, hc, hid⟩, ?_⟩
          rw [show StreamOp.isDoneBy consumer (.upsertConsumer mode i madeUp defaults settings) =
            false from rfl, Bool.and_false]
          exact .refl _ c'
        · rw [← hid]
          exact .inr ⟨mode, madeUp, defaults, settings, rfl, hbound, hwaiting, hactive, hsettings⟩
    · rw [htid] at hne
      rw [decide_eq_false hne, Bool.false_and]
      exact .inl ⟨s', c', ⟨hhas.1, hhas.2, hhas.3, hhas.4⟩, .refl _ c'⟩

/-- **A sweep removes just those consumers of its stream that have done nothing for too long.** -/
theorem Staffed.employs_sweep_iff (hb : b.Staffed) {next : Nat}
    (hreply : (onStream id (StreamOp.sweep.run b.clock) { b with nextId := next }).1 ≠
      .error .numbersExhausted) (hhas : b.Has stream consumer s c) :
    (onStream id (StreamOp.sweep.run b.clock) { b with nextId := next }).2.Employs stream consumer ↔
      (stream = id → Stream.isAbandoned b.now c = false) := by
  obtain ⟨hs, rfl, hc, rfl⟩ := hhas
  cases operates id next .sweep b with
  | missed hlive heq =>
    rw [heq]
    refine iff_of_true ⟨s, c, hs, rfl, hc, rfl⟩ ?_
    rintro rfl
    rw [hb.liveStream_eq hs] at hlive
    cases hlive
  | @ran u t backend reply hlive hr heq =>
    rw [heq] at hreply ⊢
    obtain ⟨hu, rfl⟩ := liveStream_eq_ok hlive
    have htid := (StreamOp.attends_run (hb.roster u hu) hr hreply).1
    -- A sweep lets those consumers go that were abandoned, and no other.
    have hconsumers : t.consumers = u.consumers.filter fun c => !Stream.isAbandoned b.now c := by
      cases StreamOp.outcome_run hr with
      | sweep hsweep =>
        exact Stream.consumers_sweep_eq (hb.roster u hu) hsweep
          (StreamOp.ne_exhausted_of_map hreply)
    by_cases hid : s.id = u.id
    · obtain rfl := hb.eq_of_id (List.mem_append_left _ hs) (List.mem_append_left _ hu) hid
      constructor
      · rintro ⟨s', c', hhas⟩ -
        rcases has_putStream hhas with ⟨-, hc', heq⟩ | ⟨hne, -⟩
        · -- A number is not given to a second consumer, so it is the one that was there.
          rw [hconsumers] at hc'
          obtain ⟨hmem, hkept⟩ := List.mem_filter.1 hc'
          obtain rfl := (hb.roster s hs).eq_of_id hmem hc heq
          simpa using hkept
        · exact absurd htid.symm hne
      · intro hkept
        refine ⟨t, c, List.mem_map.2 ⟨s, hs, if_pos (beq_iff_eq.2 htid.symm)⟩, htid, ?_, rfl⟩
        rw [hconsumers]
        exact List.mem_filter.2 ⟨hc, by rw [hkept rfl]; rfl⟩
    · -- Another stream is swept.
      refine iff_of_true ⟨s, c, List.mem_map.2 ⟨s, hs, if_neg ?_⟩, rfl, hc, rfl⟩
        fun heq => absurd heq hid
      rw [htid, beq_iff_eq]
      exact hid

/-- A pull that looks has its consumer active now, and changes no other. -/
theorem Staffed.has_glance (hb : b.Staffed) (hreply : (glance p b).1.IsAnswered)
    (h : (glance p b).2.Has stream consumer s' c') :
    ∃ s c, b.Has stream consumer s c ∧
      c.Stays b.now (decide (stream = p.stream ∧ consumer = p.consumer)) c' := by
  have hother (hhas : b.Has stream consumer s' c')
      (hne : ¬(stream = p.stream ∧ consumer = p.consumer)) : ∃ s c, b.Has stream consumer s c ∧
        c.Stays b.now (decide (stream = p.stream ∧ consumer = p.consumer)) c' :=
    ⟨s', c', hhas, decide_eq_false hne ▸ .refl _ c'⟩
  -- What is collected makes the one consumer active, and no other.
  have hstays {s t : Stream} {c : Consumer} {reply : Except Error Collected} {backend : Backend}
      (hcollects : b.Collects p s c reply t backend) (hne : reply ≠ .error .numbersExhausted)
      (h : ({ b with backend }.putStream t).Has stream consumer s' c') :
      ∃ s c, b.Has stream consumer s c ∧
        c.Stays b.now (decide (stream = p.stream ∧ consumer = p.consumer)) c' := by
    obtain ⟨⟨hs, hstream, hc, hconsumer⟩, hr⟩ := hcollects
    have htid := (Stream.attends_collect (hb.roster s hs) hc hr hne).id_eq
    rcases has_putStream h with ⟨rfl, hc', hid⟩ | ⟨hne, hhas⟩
    · obtain ⟨d, hd, hstays⟩ := Stream.stays_collect (hb.roster s hs) hc hr hne c' hc'
      have hd_id : d.id = consumer := hstays.id_eq.symm.trans hid
      have hactive : decide (t.id = p.stream ∧ consumer = p.consumer) = (c.id == d.id) := by
        rw [htid, hstream, hd_id, hconsumer, beq_eq_decide]
        exact decide_eq_decide.2 ⟨fun h => h.2.symm, fun h => ⟨rfl, h.symm⟩⟩
      exact ⟨s, d, ⟨hs, htid.symm, hd, hd_id⟩, hactive ▸ hstays⟩
    · exact hother ⟨hhas.1, hhas.2, hhas.3, hhas.4⟩ fun heq =>
        hne (heq.1.trans (hstream.symm.trans htid.symm))
  cases hb.glances p with
  | missed hlive heq =>
    rw [heq] at h
    refine hother h ?_
    rintro ⟨rfl, rfl⟩
    cases hlive.symm.trans (hb.liveConsumer_of_has h)
  | failed hcollects heq =>
    rw [heq] at hreply h
    exact hstays hcollects hreply.ne_error h
  | ended hcollects heq | waits hcollects hnone hlt heq =>
    rw [heq] at h
    exact hstays hcollects nofun h

/-- A stream that is created has no consumers. -/
theorem has_openStream {settings : StreamSettings}
    (h : (((openStream settings).run b).2).Has stream consumer s c) :
    b.Has stream consumer s c := by
  cases opens settings b with
  | failed hopen heq | ringless hopen heq =>
    rw [heq] at h
    exact ⟨h.1, h.2, h.3, h.4⟩
  | opened hopen heq =>
    rw [heq] at h
    obtain ⟨hs, hstream, hc, hconsumer⟩ := h
    refine ⟨(List.mem_append.1 hs).resolve_right fun hs => ?_, hstream, hc, hconsumer⟩
    rw [List.mem_singleton.1 hs, Stream.consumers_of_open? hopen] at hc
    cases hc

theorem has_deleteStream {name : String}
    (h : (((deleteStream name).run b).2).Has stream consumer s c) : b.Has stream consumer s c := by
  cases deletes name b with
  | missed hnone heq =>
    rw [heq] at h
    exact h
  | deleted hs hdestroy heq =>
    rw [heq] at h
    exact ⟨(List.mem_filter.1 h.1).1, h.2, h.3, h.4⟩

end Broker

end StreamBroker
