import StreamBroker.Proofs.Cursor.Accounts
import StreamBroker.Proofs.Stream.Staff

/-!
# Every consumer of a stream has a course

What a single cursor goes through was described apart from its stream, with any messages that come
and go.  In the life of a stream every consumer goes through just that: what happens to the log
comes to its cursor as messages that are stored and removed, and the operations that are about the
consumer come as events of their own.  So what holds of courses holds of the consumers of streams.

## Main definitions

* `CursorEvent.HappensIn`: an operation of a life was an event of a consumer

## Main results

* `Stream.Life.exists_course`: every consumer of a life is at the end of a course
* `Stream.Life.pending_lt`: what is pending was gone over, and has a number that was given
-/

namespace StreamBroker

open Cursor (Course)

variable {settings : ConsumerSettings} {x₀ x y : Index} {es : List CursorEvent} {cursor : Cursor}
  {s s' : Stream} {b b' : Backend} {clock : Clock} {reply : Except Error StreamReply}
  {op : StreamOp} {c : Consumer}

/-! ## Events -/

/-- An event of a consumer happened in a life: an operation was about the consumer when its cursor
was like this.  Messages come and go by themselves. -/
def CursorEvent.HappensIn (events : List StreamEvent) (id : Nat) : CursorEvent → Prop
  | collected before x l now => ∃ s reply c, ∃ clock : Clock,
      .operated s (.collect id l) reply ∈ events ∧ c ∈ s.consumers ∧ c.id = id ∧
        c.cursor = before ∧ x = (Retention.expire s.settings clock.wall s.index).2 ∧
        now = clock.elapsed
  | acknowledged before n kind _ => ∃ s reply c,
      .operated s (.acknowledge id n kind) reply ∈ events ∧ c ∈ s.consumers ∧ c.id = id ∧
        c.cursor = before
  | configured before wanted => ∃ s mode new madeUp defaults settings c,
      .operated s (.upsertConsumer mode new madeUp defaults settings) (.ok (.consumer id)) ∈
        events ∧ c ∈ s.consumers ∧ c.id = id ∧ c.cursor = before ∧
        wanted.filter = settings.filter
  | stored _ | removed _ _ => True

theorem CursorEvent.HappensIn.mono {events events' : List StreamEvent} {id : Nat} {e : CursorEvent}
    (h : e.HappensIn events id) (hsubset : events ⊆ events') : e.HappensIn events' id := by
  cases e with
  | collected =>
    obtain ⟨s, reply, c, clock, hmem, hrest⟩ := h
    exact ⟨s, reply, c, clock, hsubset hmem, hrest⟩
  | acknowledged =>
    obtain ⟨s, reply, c, hmem, hrest⟩ := h
    exact ⟨s, reply, c, hsubset hmem, hrest⟩
  | configured =>
    obtain ⟨s, mode, new, madeUp, defaults, settings, c, hmem, hrest⟩ := h
    exact ⟨s, mode, new, madeUp, defaults, settings, c, hsubset hmem, hrest⟩
  | stored => trivial
  | removed => trivial

/-! ## Operations -/

/-- Steps of the log are messages that come and go. -/
theorem Cursor.Course.run {journal : Option String} {ms : List StoredMessage}
    (course : Course settings x₀ es x cursor) (h : LogRun journal x b ms y b')
    {events : List StreamEvent} {id : Nat} (hes : ∀ e ∈ es, e.HappensIn events id) :
    ∃ es', Course settings x₀ es' y cursor ∧ ∀ e ∈ es', e.HappensIn events id := by
  induction h with
  | refl => exact ⟨es, course, hes⟩
  | step run hstep ih =>
    obtain ⟨es', course, hes⟩ := ih
    cases hstep with
    | store hnext hlt htime hwritten =>
      exact ⟨_, course.stored hnext, forall_mem_concat.2 ⟨hes, trivial⟩⟩
    | lose hloses => exact ⟨_, course.removed hloses, forall_mem_concat.2 ⟨hes, trivial⟩⟩
    | fail hjournal hlt hfail => exact ⟨es', course, hes⟩

/-- When messages are handed out, what is too old goes before and what is settled goes behind. -/
theorem Stream.loses_of_collect {l : Cursor.Limits} {answer : Except Error Collected}
    (h : s.collect c l clock b = (answer, s', b')) (hanswer : answer ≠ .error .numbersExhausted) :
    ∃ gone, (Retention.expire s.settings clock.wall s.index).2.Loses gone s'.index := by
  rcases collect_cases h with ⟨rfl, -⟩ | ⟨t, rfl, hhand⟩
  · exact absurd rfl hanswer
  · rcases handOut_cases hhand with ⟨rfl, -⟩ | ⟨u, rfl, rfl, -⟩
    · exact absurd rfl hanswer
    · exact ⟨_, loses_releasing _ _ _⟩

theorem StreamOp.loses_of_run_collect {l : Cursor.Limits} (hc : c ∈ s.consumers)
    (h : (StreamOp.collect c.id l).run clock s b = (reply, s', b'))
    (hreply : reply ≠ .error .numbersExhausted) :
    ∃ gone, (Retention.expire s.settings clock.wall s.index).2.Loses gone s'.index := by
  cases outcome_run h with
  | collect _ hr => exact Stream.loses_of_collect hr (ne_exhausted_of_map hreply)
  | collectNone hnone => exact absurd (beq_self_eq_true c.id) (List.find?_eq_none.1 hnone c hc)

theorem Cursor.Course.attendance (course : Course settings x₀ es x c.cursor) (a : Attendance)
    (now : Instant) : Course settings x₀ es x (a.change now c).cursor := by
  cases a with
  | arrive => exact course.attended (c.cursor.waiting + 1) now
  | leave => exact course.attended (c.cursor.waiting - 1) now
  | touch => exact course.attended c.cursor.waiting now
  | bind => exact course
  | unbind => exact course.attended c.cursor.waiting now

/-- **What an operation makes of a cursor is the next part of its course.** -/
theorem CursorStep.exists_course (hstep : CursorStep s clock reply c op cursor)
    (course : Course settings x₀ es s.index c.cursor) (hc : c ∈ s.consumers)
    (hclock : clock.IsDated) (hop : op.IsProper s) (h : op.run clock s b = (reply, s', b'))
    (hreply : reply ≠ .error .numbersExhausted) {events : List StreamEvent}
    (hes : ∀ e ∈ es, e.HappensIn events c.id) :
    ∃ es', Course settings x₀ es' s'.index cursor ∧
      ∀ e ∈ es', e.HappensIn (events ++ [.operated s op reply]) c.id := by
  obtain ⟨ms, hmoves, -⟩ := StreamOp.moves_run hclock hop h hreply
  have hes : ∀ e ∈ es, e.HappensIn (events ++ [.operated s op reply]) c.id :=
    fun e he => (hes e he).mono (List.subset_append_left ..)
  have hnow : .operated s op reply ∈ events ++ [.operated s op reply] :=
    List.mem_append_right _ (List.mem_singleton_self _)
  cases hstep with
  | kept => exact course.run hmoves.run hes
  | @collected l =>
    -- A pull evicts, collects and then removes what was settled: three events of the course.
    obtain ⟨gone, hloses⟩ := StreamOp.loses_of_run_collect hc h hreply
    have hexpired := course.removed (Retention.loses_expire s.settings clock.wall s.index)
    refine ⟨_, (hexpired.collected l clock.elapsed).removed hloses, ?_⟩
    simp only [forall_mem_concat]
    exact ⟨⟨⟨hes, trivial⟩, s, reply, c, clock, hnow, hc, rfl, rfl, rfl, rfl⟩, trivial⟩
  | @acknowledged n kind =>
    exact (course.acknowledged n kind clock.elapsed).run hmoves.run
      (forall_mem_concat.2 ⟨hes, s, reply, c, hnow, hc, rfl, rfl⟩)
  | configured hname hfilter hmay hdisjoint hdone =>
    subst hdone
    exact (course.configured hmay).run hmoves.run
      (forall_mem_concat.2 ⟨hes, s, _, _, _, _, _, c, hnow, hc, rfl, rfl, hfilter⟩)
  | @attended a => exact (course.attendance a clock.elapsed).run hmoves.run hes

namespace Stream

variable {others : Backend → Backend → Prop} {events : List StreamEvent} {b₀ : Backend} {n : Nat}

/-- **Every consumer of a stream is at the end of a course**, throughout the life of the stream, and
what happened in the course happened in the life. -/
theorem Life.exists_course (life : Life others b₀ events s b) :
    ∀ c ∈ s.consumers, ∃ settings x₀ es, Course settings x₀ es s.index c.cursor ∧
      ∀ e ∈ es, e.HappensIn events c.id := by
  induction life with
  | opened hcheck hclock h =>
    rw [consumers_of_open? h]
    exact fun c hc => nomatch hc
  | operated life hop hclock h hreply ih =>
    intro c hc
    rcases StreamOp.staff_run life.roster.ids hop h hreply with hcontinues | ⟨d, hhires⟩
    · obtain ⟨d, hd, hid, -, hstep⟩ := hcontinues.exists_of_mem hc
      obtain ⟨settings, x₀, es, course, hes⟩ := ih d hd
      exact ⟨settings, x₀, hid ▸ hstep.exists_course course hd hclock hop h hreply hes⟩
    · rw [hhires.index_eq]
      rw [hhires.consumers_eq, List.mem_append] at hc
      rcases hc with hc | hc
      · obtain ⟨settings, x₀, es, course, hes⟩ := ih c hc
        exact ⟨settings, x₀, es, course, fun e he => (hes e he).mono (List.subset_append_left ..)⟩
      · obtain rfl := List.mem_singleton.1 hc
        -- A new consumer begins a course of its own.
        obtain ⟨haccepted, hbegins⟩ := hhires.begins
        rw [hbegins]
        exact ⟨_, _, _, .created life.roster.filed haccepted, fun e he => nomatch he⟩
  | reopened life hs hcheck hname hstorage hclock h ih =>
    rw [consumers_of_open? h]
    exact fun c hc => nomatch hc
  | elsewhere life h ih => exact ih

/-- What is pending was gone over, and has a number that was given. -/
theorem Life.pending_lt (life : Life others b₀ events s b) (hc : c ∈ s.consumers)
    (hn : c.cursor.pending.contains n = true) :
    n < c.cursor.nextSeq ∧ n ≤ s.index.lastSeq := by
  obtain ⟨settings, x₀, es, course, -⟩ := life.exists_course c hc
  obtain ⟨p, hp⟩ := SeqMap.contains_iff.1 hn
  have haccounts := course.accounts
  exact ⟨haccounts.pending_lt hn, haccounts.le_lastSeq n (haccounts.pending_mem hp).1⟩

end Stream

end StreamBroker
