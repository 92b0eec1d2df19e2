import StreamBroker.Proofs.Stream.Courses
import StreamBroker.Proofs.Stream.Restart
import StreamBroker.Proofs.Subject

/-!
# The consumers of a work queue

The consumers of a work queue share its messages: whenever one of them is created or changed, its
filter is compared with the filters of the others, and no two of them get a subject together.  So a
message that is handed out to one of them is not for any other, as long as the one that has it keeps
the filter that it got it by.

A consumer that is given another filter keeps what is pending.  If the message does not match that
filter, another consumer may get it as well, and this is the only way to it.

## Main definitions

* `StreamOp.TakesAway`: a consumer is given a filter that a message does not match that it has
  pending

## Main results

* `Stream.Life.disjoint`: no two consumers of a work queue get a subject together
* `Stream.Life.gets_or_takenAway`: a consumer gets what it has pending, or it was taken away from it
* `Stream.Life.takenAway_of_shared`: a message is pending on two consumers only if it was taken away
  from one of them
-/

namespace StreamBroker

/-! ## What is taken away -/

/-- An operation takes a message away from a consumer that has it pending: the consumer is given a
filter that the message does not match. -/
def StreamOp.TakesAway (s : Stream) (reply : Except Error StreamReply) (id n : Nat) :
    StreamOp → Prop
  | upsertConsumer _ _ _ _ settings => reply = .ok (.consumer id) ∧ ∃ c ∈ s.consumers, c.id = id ∧
      c.cursor.pending.contains n = true ∧ ∃ m, s.index.get? n = some m ∧
        c.cursor.settings.gets m.subject = true ∧ settings.gets m.subject = false
  | _ => False

/-- An event of a life took a message away from a consumer. -/
def StreamEvent.TakesAway (id n : Nat) : StreamEvent → Prop
  | operated before op reply => op.TakesAway before reply id n
  | _ => False

/-! ## One operation -/

theorem ConsumerSettings.gets_congr {settings wanted : ConsumerSettings}
    (h : wanted.filter = settings.filter) (subject : String) :
    wanted.gets subject = settings.gets subject := by
  rw [gets, h, gets]

section Step

variable {s s' : Stream} {clock : Clock} {reply : Except Error StreamReply} {c d : Consumer}
  {op : StreamOp} {cursor : Cursor} {n : Nat} {m : StoredMessage} {subject : String}

/-- What a cursor has pending when it has collected was pending before, or is what the consumer
gets. -/
theorem Cursor.pending_of_collect {c : Cursor} {x : Index} (hx : x.Filed)
    (hlt : ∀ {n}, c.pending.contains n = true → n < c.nextSeq) {l : Limits} {now : Instant}
    (h : (c.collect x l now).1.pending.contains n = true) : c.pending.contains n = true ∨
      ∃ m, x.get? n = some m ∧ c.settings.gets m.subject = true := by
  obtain ⟨again, new, given, -, -, hhands, -⟩ := hands_collect hx hlt l now
  obtain ⟨q, hq⟩ := SeqMap.contains_iff.1 h
  obtain ⟨-, ⟨d, hd, rfl, -⟩ | ⟨-, hp, -⟩⟩ := hhands.pending_cases hlt hq
  · rcases List.mem_append.1 hd with hd | hd
    · obtain ⟨-, p, hp, -⟩ := hhands.of_again d hd
      exact .inl (SeqMap.contains_iff.2 ⟨p, hp⟩)
    · obtain ⟨hm, heligible, -⟩ := hhands.passes.mem hd
      rw [isEligible, Bool.and_eq_true, Bool.and_eq_true] at heligible
      exact .inr ⟨d.message, hm, heligible.1.2⟩
  · exact .inl (SeqMap.contains_iff.2 ⟨q, hp⟩)

/-- An acknowledgement makes nothing pending. -/
theorem Cursor.pending_of_acknowledge {c : Cursor} {k : Nat} {kind : AckKind} {now : Instant}
    (h : (c.acknowledge k kind now).2.pending.contains n = true) :
    c.pending.contains n = true := by
  obtain ⟨q, hq⟩ := SeqMap.contains_iff.1 h
  obtain ⟨-, p, hp, -⟩ := Accounts.exists_pending_of_acknowledge hq
  exact SeqMap.contains_iff.2 ⟨p, hp⟩

/-- A consumer keeps its filter and has pending what it had or what it gets, or it is given another
filter and has the same pending. -/
theorem CursorStep.filter_cases (h : CursorStep s clock reply c op cursor) (hx : s.index.Filed)
    (hlt : ∀ {n}, c.cursor.pending.contains n = true → n < c.cursor.nextSeq) :
    (cursor.settings.filter = c.cursor.settings.filter ∧ ∀ n, cursor.pending.contains n = true →
      c.cursor.pending.contains n = true ∨
        ∃ m, s.index.get? n = some m ∧ c.cursor.settings.gets m.subject = true) ∨
    ∃ mode id madeUp defaults settings,
      op = .upsertConsumer mode id madeUp defaults settings ∧
      settings.explicitName.getD madeUp = c.name ∧ cursor.settings.filter = settings.filter ∧
      cursor.pending = c.cursor.pending ∧
      s.checkDisjointFrom c.name cursor.settings.filter = .ok () ∧
      reply = .ok (.consumer c.id) := by
  cases h with
  | kept => exact .inl ⟨rfl, fun n hn => .inl hn⟩
  | @collected l =>
    have hexpire := Retention.loses_expire s.settings clock.wall s.index
    obtain ⟨_, _, _, -, -, hhands, -⟩ := Cursor.hands_collect (hx.loses hexpire) hlt l clock.elapsed
    refine .inl ⟨congrArg ConsumerSettings.filter hhands.settings_eq, fun n hn => ?_⟩
    -- What is pending anew was handed out, and the filter let it through.
    refine (Cursor.pending_of_collect (hx.loses hexpire) hlt hn).imp_right ?_
    exact fun ⟨m, hm, hgets⟩ => ⟨m, hexpire.get?_of_get? hm, hgets⟩
  | acknowledged =>
    refine .inl ⟨?_, fun n hn => .inl (Cursor.pending_of_acknowledge hn)⟩
    rw [(Cursor.samePlace_acknowledge ..).settings]
  | configured hname hfilter h hdisjoint hreply =>
    exact .inr ⟨_, _, _, _, _, rfl, hname, hfilter, rfl, hdisjoint, hreply⟩
  | @attended a => cases a <;> exact .inl ⟨rfl, fun n hn => .inl hn⟩

/-- A filter that is accepted in a work queue has no subject together with that of another
consumer. -/
theorem Stream.not_gets_of_checkDisjointFrom (hqueue : s.settings.retention = .workQueue)
    {name : String} {settings : ConsumerSettings}
    (h : s.checkDisjointFrom name settings.filter = .ok ()) (hd : d ∈ s.consumers)
    (hne : d.name ≠ name) (hgets : settings.gets subject = true) :
    ¬d.cursor.settings.gets subject = true := by
  intro hgets'
  rw [ConsumerSettings.gets_eq] at hgets hgets'
  have hoverlap := patternsOverlap_of_subjectMatches hgets hgets'
  simp only [checkDisjointFrom, if_pos hqueue] at h
  split at h
  · cases h
  · next hnone =>
    have hnot := List.find?_eq_none.1 hnone d hd
    simp [hne, hoverlap] at hnot

end Step

/-! ## Lives -/

namespace Stream

variable {others : Backend → Backend → Prop} {events : List StreamEvent} {s s' : Stream}
  {b₀ b b' : Backend} {c d : Consumer} {n : Nat} {m : StoredMessage} {clock : Clock}
  {reply : Except Error StreamReply} {op : StreamOp} {subject : String}

/-- No two consumers of a stream get a subject together. -/
def Disjoint (s : Stream) : Prop :=
  ∀ c ∈ s.consumers, ∀ d ∈ s.consumers, c.id ≠ d.id → ∀ subject,
    c.cursor.settings.gets subject = true → ¬d.cursor.settings.gets subject = true

theorem Disjoint.hires (h : s.Disjoint) (hqueue : s.settings.retention = .workQueue)
    (hhires : s.Hires clock c s') : s'.Disjoint := by
  have hothers (d : Consumer) (hd : d ∈ s.consumers) (subject : String)
      (hgets : c.cursor.settings.gets subject = true) : ¬d.cursor.settings.gets subject = true :=
    not_gets_of_checkDisjointFrom hqueue hhires.disjoint hd (hhires.name_ne d hd) hgets
  intro d hd e he hne subject hgets hgets'
  rw [hhires.consumers_eq, List.mem_append, List.mem_singleton] at hd he
  rcases hd with hd | rfl
  · rcases he with he | rfl
    · exact h d hd e he hne subject hgets hgets'
    · exact hothers d hd subject hgets' hgets
  · rcases he with he | rfl
    · exact hothers e he subject hgets hgets'
    · exact hne rfl

theorem Disjoint.continues (h : s.Disjoint) (hqueue : s.settings.retention = .workQueue)
    (hs : s.Roster) (hlt : ∀ {c n}, c ∈ s.consumers → c.cursor.pending.contains n = true →
      n < c.cursor.nextSeq) (hcontinues : s.Continues (CursorStep s clock reply · op) s') :
    s'.Disjoint := by
  intro c' hc' d' hd' hne subject hgets hgets'
  obtain ⟨c, hc, hcid, -, hcstep⟩ := hcontinues.exists_of_mem hc'
  obtain ⟨d, hd, hdid, -, hdstep⟩ := hcontinues.exists_of_mem hd'
  have hids : c.id ≠ d.id := fun heq => hne (hcid.trans (heq.trans hdid.symm))
  have hnames : c.name ≠ d.name := fun heq => hids (congrArg _ (hs.eq_of_name hc hd heq))
  rcases hcstep.filter_cases hs.filed (hlt hc) with ⟨hcfilter, -⟩ |
    ⟨_, _, _, _, _, rfl, hcname, -, -, hcdisjoint, -⟩
  · rw [ConsumerSettings.gets_congr hcfilter] at hgets
    rcases hdstep.filter_cases hs.filed (hlt hd) with ⟨hdfilter, -⟩ |
      ⟨_, _, _, _, _, rfl, -, -, -, hddisjoint, -⟩
    · rw [ConsumerSettings.gets_congr hdfilter] at hgets'
      exact h c hc d hd hids subject hgets hgets'
    · exact not_gets_of_checkDisjointFrom hqueue hddisjoint hc hnames hgets' hgets
  · rcases hdstep.filter_cases hs.filed (hlt hd) with ⟨hdfilter, -⟩ |
      ⟨_, _, _, _, _, heq, hdname, -⟩
    · rw [ConsumerSettings.gets_congr hdfilter] at hgets'
      exact not_gets_of_checkDisjointFrom hqueue hcdisjoint hd hnames.symm hgets hgets'
    · -- An operation gives a filter to consumers of one name only.
      cases heq
      exact hnames (hcname.symm.trans hdname)

/-- **No two consumers of a work queue get a subject together**, throughout its life. -/
theorem Life.disjoint (life : Life others b₀ events s b)
    (hqueue : s.settings.retention = .workQueue) : s.Disjoint := by
  induction life with
  | opened hcheck hclock h =>
    intro c hc
    rw [consumers_of_open? h] at hc
    cases hc
  | operated life hop hclock h hreply ih =>
    obtain ⟨ms, hmoves, -⟩ := StreamOp.moves_run hclock hop h hreply
    have hqueue' := hmoves.retention ▸ hqueue
    rcases StreamOp.staff_run life.roster.ids hop h hreply with hcontinues | ⟨c, hhires⟩
    · exact (ih hqueue').continues hqueue' life.roster (fun hc hn => (life.pending_lt hc hn).1)
        hcontinues
    · exact (ih hqueue').hires hqueue' hhires
  | reopened life hs hcheck hname hstorage hclock h ih =>
    intro c hc
    rw [consumers_of_open? h] at hc
    cases hc
  | elsewhere life h ih => exact ih hqueue

/-! ## What is pending -/

/-- A consumer gets what it has pending, or it was given a filter that the message does not
match. -/
theorem pending_cases_of_continues (hcontinues : s.Continues (CursorStep s clock reply · op) s')
    (hs : s.Roster) (hlt : ∀ {c n}, c ∈ s.consumers → c.cursor.pending.contains n = true →
      n < c.cursor.nextSeq ∧ n ≤ s.index.lastSeq)
    (hkeeps : ∀ {n m}, s'.index.get? n = some m → n ≤ s.index.lastSeq → s.index.get? n = some m)
    (hc : c ∈ s'.consumers) (hn : c.cursor.pending.contains n = true)
    (hm : s'.index.get? n = some m) :
    c.cursor.settings.gets m.subject = true ∨ op.TakesAway s reply c.id n ∨
      s.index.get? n = some m ∧ ∃ d ∈ s.consumers, d.id = c.id ∧
        d.cursor.pending.contains n = true ∧ ¬d.cursor.settings.gets m.subject = true := by
  obtain ⟨d, hd, hid, -, hstep⟩ := hcontinues.exists_of_mem hc
  -- Whether the consumer got the message before decides the cases.
  have hbefore (hpending : d.cursor.pending.contains n = true) :
      s.index.get? n = some m ∧ (d.cursor.settings.gets m.subject = true ∨
        ∃ d ∈ s.consumers, d.id = c.id ∧ d.cursor.pending.contains n = true ∧
          ¬d.cursor.settings.gets m.subject = true) := by
    refine ⟨hkeeps hm (hlt hd hpending).2, ?_⟩
    by_cases hgets : d.cursor.settings.gets m.subject = true
    · exact .inl hgets
    · exact .inr ⟨d, hd, hid.symm, hpending, hgets⟩
  rcases hstep.filter_cases hs.filed fun hn => (hlt hd hn).1 with ⟨hfilter, hpending⟩ |
    ⟨_, _, _, _, settings, rfl, -, hfilter, hpending, -, rfl⟩
  · rw [ConsumerSettings.gets_congr hfilter]
    rcases hpending n hn with hpending | ⟨w, hw, hgets⟩
    · obtain ⟨hget, hgets | hleft⟩ := hbefore hpending
      · exact .inl hgets
      · exact .inr (.inr ⟨hget, hleft⟩)
    · rw [hkeeps hm (hs.filed.le_lastSeq hw), Option.some.injEq] at hw
      exact .inl (hw ▸ hgets)
  · rw [hpending] at hn
    obtain ⟨hget, hgets | hleft⟩ := hbefore hn
    · rw [ConsumerSettings.gets_congr hfilter]
      by_cases hwanted : settings.gets m.subject = true
      · exact .inl hwanted
      · exact .inr (.inl ⟨by rw [hid], d, hd, hid.symm, hn, m, hget, hgets,
          Bool.eq_false_iff.2 hwanted⟩)
    · exact .inr (.inr ⟨hget, hleft⟩)

/-- **A consumer gets what it has pending, or it was taken away from it.** -/
theorem Life.gets_or_takenAway (life : Life others b₀ events s b) (hc : c ∈ s.consumers)
    (hn : c.cursor.pending.contains n = true) (hm : s.index.get? n = some m) :
    c.cursor.settings.gets m.subject = true ∨ ∃ e ∈ events, e.TakesAway c.id n := by
  induction life generalizing c with
  | opened hcheck hclock h =>
    rw [consumers_of_open? h] at hc
    cases hc
  | operated life hop hclock h hreply ih =>
    obtain ⟨ms, hmoves, -⟩ := StreamOp.moves_run hclock hop h hreply
    rcases StreamOp.staff_run life.roster.ids hop h hreply with hcontinues | ⟨d, hhires⟩
    · rcases pending_cases_of_continues hcontinues life.roster life.pending_lt hmoves.run.keeps.2
        hc hn hm with hgets | htakes | ⟨hget, d, hd, hid, hpending, hgets⟩
      · exact .inl hgets
      · exact .inr ⟨_, List.mem_append_right _ (List.mem_singleton_self _), htakes⟩
      · obtain ⟨e, he, htakes⟩ := (ih hd hpending hget).resolve_left hgets
        exact .inr ⟨e, List.mem_append_left _ he, hid ▸ htakes⟩
    · rw [hhires.consumers_eq, List.mem_append, List.mem_singleton] at hc
      rw [hhires.index_eq] at hm
      rcases hc with hc | rfl
      · refine (ih hc hn hm).imp_right fun ⟨e, he, htakes⟩ => ⟨e, ?_, htakes⟩
        exact List.mem_append_left _ he
      · -- Nothing is pending on a consumer that is new.
        rw [hhires.begins.2] at hn
        cases hn
  | reopened life hs hcheck hname hstorage hclock h ih =>
    rw [consumers_of_open? h] at hc
    cases hc
  | elsewhere life h ih => exact ih hc hn hm

/-- **A message of a work queue is in the hands of one consumer at a time, unless it was taken away
from a consumer that had it**: if it is pending on two consumers at any time of a life, an update
that was accepted has given one of them a filter that the message does not match while it was
pending, and that consumer does not get the message now. -/
theorem Life.takenAway_of_shared (life : Life others b₀ events s b)
    (hqueue : s.settings.retention = .workQueue) (hc : c ∈ s.consumers) (hd : d ∈ s.consumers)
    (hne : c.id ≠ d.id) (hm : s.index.get? n = some m)
    (hcn : c.cursor.pending.contains n = true) (hdn : d.cursor.pending.contains n = true) :
    ∃ k, (k = c ∨ k = d) ∧ k.cursor.settings.gets m.subject = false ∧
      ∃ e ∈ events, e.TakesAway k.id n := by
  by_cases hgets : c.cursor.settings.gets m.subject = true
  · have hnot := life.disjoint hqueue c hc d hd hne m.subject hgets
    have htakes := (life.gets_or_takenAway hd hdn hm).resolve_left hnot
    exact ⟨d, .inr rfl, Bool.eq_false_iff.2 hnot, htakes⟩
  · exact ⟨c, .inl rfl, Bool.eq_false_iff.2 hgets,
      (life.gets_or_takenAway hc hcn hm).resolve_left hgets⟩

/-- A consumer that is given another filter keeps what it has, and another one may get it too. -/
theorem shared_when_taken_away :
    ∃ events s b c d m, Life (Backend.Elsewhere "stream_S") blankBackend events s b ∧
      s.settings.retention = .workQueue ∧ c ∈ s.consumers ∧ d ∈ s.consumers ∧ c.id ≠ d.id ∧
      s.index.get? 1 = some m ∧ c.cursor.pending.contains 1 = true ∧
      d.cursor.pending.contains 1 = true ∧
      ∃ k, (k = c ∨ k = d) ∧ k.cursor.settings.gets m.subject = false ∧
        ∃ e ∈ events, e.TakesAway k.id 1 := by
  have hclock : epochClock.IsDated := rfl
  obtain ⟨s₀, b₀, s₁, b₁, s₂, b₂, s₃, b₃, s₄, b₄, s₅, b₅, s, b, r, r', m, c, d, hopen, hpublish,
      hcreate, hcollect, hupdate, hcreate', hcollect', hnew, hnone, hnew', hqueue, hconsumers, hne,
      hm, hcn, hdn⟩ :
      ∃ s₀ b₀ s₁ b₁ s₂ b₂ s₃ b₃ s₄ b₄ s₅ b₅ s b r r' m c d,
        open? 0 { name := "S", subjects := ["a", "b"], retention := .workQueue } epochClock
          blankBackend = (.ok s₀, b₀) ∧
        (StreamOp.publish 0 {} ⟨"a", [], []⟩).run epochClock s₀ b₀ = (.ok (.stored 1), s₁, b₁) ∧
        (StreamOp.upsertConsumer .create 0 "C" {} { filter := some "a" }).run epochClock s₁ b₁ =
          (.ok (.consumer 0), s₂, b₂) ∧
        (StreamOp.collect 0 { batch := 1 }).run epochClock s₂ b₂ = (.ok r, s₃, b₃) ∧
        (StreamOp.upsertConsumer .update 1 "C" {} { filter := some "b" }).run epochClock s₃ b₃ =
          (.ok (.consumer 0), s₄, b₄) ∧
        (StreamOp.upsertConsumer .create 1 "D" {} { filter := some "a" }).run epochClock s₄ b₄ =
          (.ok (.consumer 1), s₅, b₅) ∧
        (StreamOp.collect 1 { batch := 1 }).run epochClock s₅ b₅ = (.ok r', s, b) ∧
        s₁.consumerById? 0 = none ∧ s₃.consumerById? 1 = none ∧ s₄.consumerById? 1 = none ∧
        s.settings.retention = .workQueue ∧ s.consumers = [c, d] ∧ c.id ≠ d.id ∧
        s.index.get? 1 = some m ∧ c.cursor.pending.contains 1 = true ∧
        d.cursor.pending.contains 1 = true :=
    ⟨_, _, _, _, _, _, _, _, _, _, _, _, _, _, _, _, _, _, _, rfl, rfl, rfl, rfl, rfl, rfl, rfl,
      rfl, rfl, rfl, rfl, rfl, Nat.zero_ne_one, rfl, rfl, rfl⟩
  have life : Life (Backend.Elsewhere "stream_S") blankBackend _ s b :=
    ((((((Life.opened rfl hclock hopen).operated (by trivial) hclock hpublish nofun).operated
      (by exact hnew) hclock hcreate nofun).operated (by trivial) hclock hcollect nofun).operated
      (by exact hnone) hclock hupdate nofun).operated (by exact hnew') hclock hcreate'
      nofun).operated (by trivial) hclock hcollect' nofun
  have hc : c ∈ s.consumers := hconsumers ▸ List.mem_cons_self
  have hd : d ∈ s.consumers := hconsumers ▸ List.mem_cons_of_mem c List.mem_cons_self
  exact ⟨_, s, b, c, d, m, life, hqueue, hc, hd, hne, hm, hcn, hdn,
    life.takenAway_of_shared hqueue hc hd hne hm hcn hdn⟩

end Stream

end StreamBroker
