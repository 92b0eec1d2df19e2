import StreamBroker.Proofs.Cursor.PassedOver
import StreamBroker.Proofs.Stream.Courses
import StreamBroker.Proofs.Stream.Restart

/-!
# What a stream waits for

A stream that keeps messages for its consumers keeps what one of them needs.  A consumer needs what
is ahead of it and what it has pending, and besides that what it has passed over by a filter that it
had before, as soon as its filter of now lets that through.  For such a message the stream waits in
vain: the consumer is not handed it, and cannot acknowledge it.

## Main results

* `Stream.Life.consumer_needs_iff`: what the consumers of a stream need, throughout its life
-/

namespace StreamBroker

open Cursor (Course)

namespace Stream

variable {others : Backend → Backend → Prop} {events : List StreamEvent} {s : Stream}
  {b₀ b : Backend} {c : Consumer}

/-- **A consumer needs what is ahead of it, what it has pending, and what it has passed over by a
filter of before**, throughout the life of its stream: just that counts, of what it gets at all, and
of what is not ahead only what is above the floor.  What was passed over is behind the cursor and
not pending, and is not handed out any more. -/
theorem Life.consumer_needs_iff (life : Life others b₀ events s b) (hc : c ∈ s.consumers) :
    ∃ settings x₀ es, Course settings x₀ es s.index c.cursor ∧
      (∀ e ∈ es, e.HappensIn events c.id) ∧
      ∀ n m, s.index.get? n = some m →
        (c.cursor.needs n m.subject = true ↔ c.cursor.isEligible n m.subject = true ∧
          (c.cursor.nextSeq ≤ n ∨ c.cursor.ackFloor.stream < n ∧
            (c.cursor.pending.contains n = true ∨ ∃ e ∈ es, e.PassesOver m))) ∧
        ((∃ e ∈ es, e.PassesOver m) →
          n < c.cursor.nextSeq ∧ c.cursor.pending.contains n = false ∧ ∀ l now,
            n ∉ (c.cursor.collect s.index l now).2.deliveries.map Delivery.sequence) := by
  obtain ⟨settings, x₀, es, course, hes⟩ := life.exists_course c hc
  refine ⟨settings, x₀, es, course, hes, fun n m hm => ⟨course.needs_iff hm, fun hover => ?_⟩⟩
  obtain rfl := life.roster.filed.sequence_eq hm
  exact course.not_delivered_of_passedOver hover

/-- A stream keeps a message that its only consumer has passed over by the filter that it had. -/
theorem kept_in_vain :
    ∃ events s b c m, Life (Backend.Elsewhere "stream_S") blankBackend events s b ∧
      s.settings.retention = .interest ∧ s.consumers = [c] ∧ s.index.get? 1 = some m ∧
      c.cursor.needs 1 m.subject = true ∧ c.cursor.pending.contains 1 = false ∧
      c.cursor.nextSeq = 2 ∧ ∃ settings x₀ es, Course settings x₀ es s.index c.cursor ∧
        ∃ e ∈ es, e.PassesOver m := by
  have hclock : epochClock.IsDated := rfl
  obtain ⟨s₀, b₀, s₁, b₁, s₂, b₂, s₃, b₃, s₄, b₄, s₅, b₅, s, b, r, m, c, hopen, hcreate, hcreate',
      hpublish, hcollect, hupdate, hdelete, hnew, hnew', hnone, hinterest, hconsumers, hm, hneeds,
      hpending, hnext⟩ :
      ∃ s₀ b₀ s₁ b₁ s₂ b₂ s₃ b₃ s₄ b₄ s₅ b₅ s b r m c,
        open? 0 { name := "S", subjects := ["a", "b"], retention := .interest } epochClock
          blankBackend = (.ok s₀, b₀) ∧
        (StreamOp.upsertConsumer .create 0 "C" {} { filter := some "a" }).run epochClock s₀ b₀ =
          (.ok (.consumer 0), s₁, b₁) ∧
        (StreamOp.upsertConsumer .create 1 "D" {} { filter := some "b" }).run epochClock s₁ b₁ =
          (.ok (.consumer 1), s₂, b₂) ∧
        (StreamOp.publish 0 {} ⟨"b", [], []⟩).run epochClock s₂ b₂ = (.ok (.stored 1), s₃, b₃) ∧
        (StreamOp.collect 0 { batch := 1 }).run epochClock s₃ b₃ = (.ok r, s₄, b₄) ∧
        (StreamOp.upsertConsumer .update 2 "C" {} {}).run epochClock s₄ b₄ =
          (.ok (.consumer 0), s₅, b₅) ∧
        (StreamOp.deleteConsumer "D").run epochClock s₅ b₅ = (.ok .done, s, b) ∧
        s₀.consumerById? 0 = none ∧ s₁.consumerById? 1 = none ∧ s₄.consumerById? 2 = none ∧
        s.settings.retention = .interest ∧ s.consumers = [c] ∧ s.index.get? 1 = some m ∧
        c.cursor.needs 1 m.subject = true ∧ c.cursor.pending.contains 1 = false ∧
        c.cursor.nextSeq = 2 :=
    ⟨_, _, _, _, _, _, _, _, _, _, _, _, _, _, _, _, _, rfl, rfl, rfl, rfl, rfl, rfl, rfl, rfl, rfl,
      rfl, rfl, rfl, rfl, rfl, rfl, rfl⟩
  have life : Life (Backend.Elsewhere "stream_S") blankBackend _ s b :=
    ((((((Life.opened rfl hclock hopen).operated (by exact hnew) hclock hcreate nofun).operated
      (by exact hnew') hclock hcreate' nofun).operated (by trivial) hclock hpublish nofun).operated
      (by trivial) hclock hcollect nofun).operated (by exact hnone) hclock hupdate nofun).operated
      (by trivial) hclock hdelete nofun
  obtain ⟨settings, x₀, es, course, -, hall⟩ :=
    life.consumer_needs_iff (hconsumers ▸ List.mem_singleton_self c)
  -- The message is neither ahead nor pending, so it was passed over.
  obtain ⟨-, hahead | ⟨-, hpending' | hover⟩⟩ := ((hall 1 m hm).1).1 hneeds
  · rw [hnext] at hahead
    omega
  · rw [hpending] at hpending'
    cases hpending'
  · exact ⟨_, s, b, c, m, life, hinterest, hconsumers, hm, hneeds, hpending, hnext, settings, x₀,
      es, course, hover⟩

end Stream

end StreamBroker
