import StreamBroker.Proofs.Broker.Origins
import StreamBroker.Proofs.Stream.Steady

/-!
# The calls of a client

A client publishes messages, purges subjects and looks at what a stream holds.  Each of these calls
is an operation on one stream, and leaves the other streams where they are.  A stream that lets
nothing go on its own is not changed at all when one looks at it.

## Main results

* `Broker.run_publish_cases`, `Broker.run_purge`: a call is an operation on a stream
* `Broker.Staffed.run_inspect`: looking changes nothing
-/

namespace StreamBroker.Broker

variable {b b' : Broker} {s : Stream} {id : Nat}

/-- An operation on another stream leaves a stream where it is. -/
theorem Staffed.mem_onStream (hb : b.Staffed) (hs : s ∈ b.streams) (hid : id ≠ s.id)
    {op : StreamOp} (hreply : (onStream id (op.run b.clock) b).1 ≠ .error .numbersExhausted) :
    s ∈ (onStream id (op.run b.clock) b).2.streams := by
  cases ht : b.liveStream id with
  | error e =>
    simp only [onStream, ht]
    exact hs
  | ok t =>
    simp only [onStream, ht] at hreply ⊢
    obtain ⟨hmem, rfl⟩ := liveStream_eq_ok ht
    cases hrun : op.run b.clock t b.backend with
    | mk reply left =>
      rw [hrun] at hreply
      have htid := (StreamOp.attends_run (hb.roster t hmem) hrun hreply).1
      refine List.mem_map.2 ⟨s, hs, if_neg fun heq => hid ?_⟩
      rw [← htid, beq_iff_eq.1 heq]

/-- An operation in the common form runs out of numbers when it does without it. -/
theorem ne_exhausted_of_onStream {α : Type} {g : α → StreamReply} {r : Except Error α}
    {op : Stream → Backend → Except Error StreamReply × Stream × Backend}
    (h : onStream id op b = (r.map g, b')) (hr : r ≠ .error .numbersExhausted) :
    (onStream id op b).1 ≠ .error .numbersExhausted := by
  rw [h]
  cases r with
  | ok a => simp [Except.map]
  | error e =>
    rintro heq
    cases heq
    exact hr rfl

/-- A message is published to one stream, or refused before. -/
theorem run_publish_cases {m : Message} {e : Expectations} {reply : Except Error PublishAck}
    (hrun : (publish m e).run b = (reply, b')) (hreply : reply ≠ .error .numbersExhausted) :
    b' = b ∨ ∃ id,
      (onStream id ((StreamOp.publish b.settings.maxPayload e m).run b.clock) b).1 ≠
        .error .numbersExhausted ∧
      (onStream id ((StreamOp.publish b.settings.maxPayload e m).run b.clock) b).2 = b' := by
  rw [publish, Action.bind_ok (Action.run_read b)] at hrun
  rcases action_check_cases hrun with ⟨e, -, -, rfl⟩ | ⟨t, -, hrun⟩
  · exact .inl rfl
  obtain ⟨n, hstore, rfl⟩ := action_map_cases (f := PublishAck.mk t.name) hrun
  have hn : n ≠ .error .numbersExhausted := by
    rintro rfl
    exact hreply rfl
  have hon : onStream t.id ((StreamOp.publish b.settings.maxPayload e m).run b.clock) b =
      (n.map .stored, b') := onStream_answering hstore .stored
  exact .inr ⟨t.id, ne_exhausted_of_onStream hon hn, congrArg Prod.snd hon⟩

/-- Messages of a stream are purged. -/
theorem run_purge {r : PurgeRequest} {reply : Except Error Nat}
    (hrun : (purge id r).run b = (reply, b')) (hreply : reply ≠ .error .numbersExhausted) :
    (onStream id ((StreamOp.purge r).run b.clock) b).1 ≠ .error .numbersExhausted ∧
      (onStream id ((StreamOp.purge r).run b.clock) b).2 = b' := by
  have hpurge : onStream id (fun s backend => s.purge r backend) b = (reply, b') := hrun
  have hon : onStream id ((StreamOp.purge r).run b.clock) b = (reply.map .removed, b') :=
    onStream_answering hpurge .removed
  exact ⟨ne_exhausted_of_onStream hon hreply, congrArg Prod.snd hon⟩

/-- A stream that is put where it was changes nothing. -/
theorem Staffed.putStream_self (hb : b.Staffed) (hs : s ∈ b.streams) : b.putStream s = b := by
  have hsame {l : List Stream} (hl : ∀ t ∈ l, t ∈ b.streams ++ b.formerStreams) :
      (l.map fun t => if t.id == s.id then s else t) = l := by
    refine (List.map_congr_left fun t ht => ?_).trans (List.map_id l)
    split
    · next h => exact hb.eq_of_id (List.mem_append_left _ hs) (hl t ht) (beq_iff_eq.1 h).symm
    · rfl
  simp only [putStream, hsame fun t ht => List.mem_append_left _ ht,
    hsame fun t ht => List.mem_append_right _ ht]

/-- **Looking at a stream that lets nothing go on its own changes nothing.** -/
theorem Staffed.run_inspect {α : Type} (hb : b.Staffed) (hs : s ∈ b.streams)
    (hsteady : s.settings.IsSteady) (check : Except Error Unit) (f : Stream → Except Error α) :
    (inspect s.id check f).run b = (check >>= fun _ => f s, b) := by
  have hlive := hb.liveStream_eq hs
  have hevict : evict s.id b = (.ok (), b) := by
    simp only [evict, onStream, hlive, Stream.evict_steady hsteady]
    exact Prod.ext rfl (hb.putStream_self hs)
  cases check with
  | error e =>
    simp only [Action.run, inspect, hlive]
    rfl
  | ok u =>
    simp only [Action.run, inspect, hlive, hevict]
    rfl

end StreamBroker.Broker
