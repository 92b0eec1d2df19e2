import StreamBroker.Proofs.Broker.Origins
import StreamBroker.Proofs.Feed
import StreamBroker.Proofs.Stream.Announced
import StreamBroker.Proofs.Stream.Restart

/-!
# Feeds miss nothing and repeat nothing

A feed yields the messages that it found when it was opened, and then the messages that have come
since, each once and in the order of their numbers.  A reader who falls behind by more than the ring
holds loses some of them, and still gets nothing twice or out of order.

What has come by a step is told from the stream before and after it: a message that the limits took
away again in the same publish has not come.

## Main definitions

* `Index.selected`, `Index.due`: the messages that a feed is to begin with, and to yield in all
* `Broker.Passes`: what a step does to a stream that a feed follows
* `Broker.Watching`: a feed was opened at some time, and read from since
* `Broker.KeepsUp`: the ring holds all that a feed has not read

## Main results

* `Broker.Step.passes`: a step announces what comes by it
* `Broker.Watching.yields`: what a feed yields
-/

namespace StreamBroker

variable {pattern : String} {beginning : WatchStart}

/-- The messages that a feed is to begin with. -/
def Index.selected (x : Index) (pattern : String) : WatchStart → List StoredMessage
  | .new => []
  | .lastPerSubject => x.newestMatching pattern
  | .all => x.toList.filter fun m => subjectMatches m.subject pattern

theorem Index.Filed.pairwise_selected {x : Index} (hx : x.Filed) (pattern : String)
    (beginning : WatchStart) :
    (x.selected pattern beginning).Pairwise fun m w => m.sequence < w.sequence := by
  cases beginning with
  | new => exact .nil
  | lastPerSubject => exact (hx.pairwise_toList.filter _).filter _
  | all => exact hx.pairwise_toList.filter _

/-- The messages that a feed begins with are stored. -/
theorem Index.mem_toList_of_selected {x : Index} {m : StoredMessage}
    (hm : m ∈ x.selected pattern beginning) : m ∈ x.toList := by
  cases beginning with
  | new => cases hm
  | lastPerSubject => exact (List.mem_filter.1 (List.mem_filter.1 hm).1).1
  | all => exact (List.mem_filter.1 hm).1

/-- The messages that a feed is to yield, in order: those that it begins with, and those of the
messages that have come which match. -/
def Index.due (x : Index) (pattern : String) (beginning : WatchStart)
    (came : List StoredMessage) : List StoredMessage :=
  x.selected pattern beginning ++ came.filter fun m => subjectMatches m.subject pattern

/-- A feed begins with the messages that it is to begin with.  To find the newest messages of the
subjects it relies on what is kept of every subject. -/
theorem Stream.snapshot_eq {s : Stream} (pattern : String)
    (hs : beginning = .lastPerSubject → s.index.Sound) :
    s.snapshot pattern beginning = s.index.selected pattern beginning := by
  cases beginning with
  | new => rfl
  | lastPerSubject => exact (hs rfl).coherent.toTallied.lastPerSubject_eq pattern
  | all => rfl

namespace Broker

variable {b b' : Broker} {past : List Broker} {s s' : Stream} {f f' : Feed} {id : Nat}
  {x : Index} {came read : List StoredMessage} {seen : List (Broker × Feed)}

theorem known_of_streamById? (h : b.streamById? id = some s) : s ∈ b.known ∧ s.id = id :=
  ⟨List.mem_of_find?_eq_some h, by simpa using List.find?_some h⟩

/-! ## What a step announces -/

/-- What a step does to a stream that a feed follows. -/
structure Passes (b : Broker) (s : Stream) (b' : Broker) (s' : Stream) : Prop where
  /-- What has come is announced. -/
  events_eq : s'.events = (s.newcomers s').reverse ++ s.events
  /-- A stream that is not deleted was not deleted, and gives no number again. -/
  live : s' ∈ b'.streams → s ∈ b.streams ∧ s.index.lastSeq ≤ s'.index.lastSeq
  /-- Nothing comes to a stream that was deleted. -/
  newcomers_eq : s ∉ b.streams → s.newcomers s' = []

/-- **A step announces what comes by it**, to whatever stream. -/
theorem Step.passes (hb : b.Staffed) (hfiled : b.Filed) (h : b.Step b') (hs : s ∈ b.known)
    (hs' : s' ∈ b'.known) (hid : s'.id = s.id) : b.Passes s b' s' := by
  have hsame {t u : Stream} (ht : t ∈ b.known) (hu : u.id = t.id) (hlog : SameLog u s') : t = s :=
    hb.eq_of_id ht hs (hu.symm.trans (hlog.id_eq.symm.trans hid))
  cases h.leadsTo hb s' hs' with
  | @kept t ht hlive hlog =>
    obtain rfl := hsame ht rfl hlog
    have hloses : t.index.Loses [] s'.index := hlog.index_eq ▸ .refl t.index
    have hnone : t.newcomers s' = [] := Stream.newcomers_of_loses (hfiled t hs) hloses
    exact ⟨by rw [hnone, hlog.events_eq]; rfl,
      fun hmem => ⟨hlive hmem, Nat.le_of_eq (congrArg Index.lastSeq hlog.index_eq.symm)⟩,
      fun _ => hnone⟩
  | @operated t u op backend reply ht hop hrun hreply hlog =>
    have hu := (StreamOp.attends_run (hb.roster t ht) hrun hreply).1
    obtain rfl := hsame (List.mem_append_left _ ht) hu hlog
    have hannounces := StreamOp.announces_run (hfiled t hs) hb.dated hop hrun hreply
    have hnews : t.newcomers s' = t.newcomers u := by
      rw [Stream.newcomers, hlog.index_eq, Stream.newcomers]
    exact ⟨by rw [hnews, hlog.events_eq, hannounces.events_eq],
      fun _ => ⟨ht, hlog.index_eq ▸ hannounces.lastSeq_le⟩, fun hgone => absurd ht hgone⟩
  | opened hnew =>
    -- The stream was there before, under a number that was given.
    exact absurd (hb.id_lt _ (List.mem_map_of_mem hs)) (Nat.not_lt.2 (hid ▸ hnew))
  | @destroyed t ht hgone hid' hindex hevents =>
    obtain rfl := hb.eq_of_id (List.mem_append_left _ ht) hs (hid'.symm.trans hid)
    have hnone : t.newcomers s' = [] := by
      rw [Stream.newcomers, hindex]
      rfl
    exact ⟨by rw [hnone, hevents]; rfl, fun hmem => absurd hmem hgone, fun _ => hnone⟩

/-! ## Feeds that are read from -/

/-- A feed of a pattern was opened when a stream had an index.  Since then messages have come to the
stream, and messages were read from the feed. -/
inductive Watching (pattern : String) (beginning : WatchStart) :
    Index → List (Broker × Feed) → List StoredMessage → List StoredMessage → Prop where
  /-- It has just been opened.  If it begins with the newest messages of the subjects, the journals
  that streams were opened from could be read. -/
  | opened {b b' : Broker} {past : List Broker} {id : Nat} {f : Feed} {s : Stream}
      (history : History (b :: past))
      (hlegible : beginning = .lastPerSubject → ∀ t ∈ b :: past, t.backend.IsLegible)
      (hwatch : (watch id pattern beginning).run b = (.ok f, b'))
      (hs : b'.streamById? f.stream = some s) :
      Watching pattern beginning s.index [(b', f)] [] []
  /-- Something has happened to the broker. -/
  | moved {b b' : Broker} {f : Feed} {s s' : Stream} {x : Index} {seen : List (Broker × Feed)}
      {came read : List StoredMessage} (h : Watching pattern beginning x ((b, f) :: seen) came read)
      (hstep : b.Step b') (hs : b.streamById? f.stream = some s)
      (hs' : b'.streamById? f.stream = some s') :
      Watching pattern beginning x ((b', f) :: (b, f) :: seen) (came ++ s.newcomers s') read
  /-- Some of what there was has been read. -/
  | drained {b : Broker} {f f' : Feed} {x : Index} {seen : List (Broker × Feed)}
      {came read items : List StoredMessage} {most : Option Nat}
      (h : Watching pattern beginning x ((b, f) :: seen) came read)
      (hdrain : b.drain f some most = (items, f')) :
      Watching pattern beginning x ((b, f') :: (b, f) :: seen) came (read ++ items)

/-- The ring holds all announcements that a feed has not read. -/
def KeepsUp (b : Broker) (f : Feed) : Prop :=
  ∀ s, b.streamById? f.stream = some s → f.KeepsUp s.events

instance (b : Broker) (f : Feed) : Decidable (b.KeepsUp f) :=
  match h : b.streamById? f.stream with
  | some s => decidable_of_iff (f.KeepsUp s.events) <| by
    simp only [KeepsUp, h, Option.some.injEq, forall_eq']
  | none => isTrue fun s hs => by
    rw [h] at hs
    cases hs

/-- A feed that is opened is a feed of a stream that is there, after what is too old has gone. -/
theorem run_watch_cases (hb : b.Staffed) (h : (watch id pattern beginning).run b = (.ok f, b')) :
    ∃ s ∈ b'.streams, s.id = id ∧ f = Feed.start s pattern beginning b.settings.watchBuffer ∧
      b.Step b' := by
  obtain ⟨s, u, hlive, hu, hf, hevict, rfl⟩ := inspect_eq_ok hb h
  exact ⟨_, hu, (liveStream_eq_ok hlive).2, (Except.ok.inj hf).symm, step_of_evict hevict⟩

/-! ## What a feed yields -/

/-- A feed of a stream is on its way along the messages that it is to yield: what was read and what
is ahead are some of them, and all unless the ring has lost some. -/
structure Follows (b : Broker) (f : Feed) (s : Stream) (pattern : String)
    (seen : List (Broker × Feed)) (due read : List StoredMessage) : Prop where
  /-- The broker has come about by what can happen to it. -/
  history : ∃ past, History (b :: past)
  /-- The stream is the one that is followed. -/
  found : b.streamById? f.stream = some s
  /-- The pattern is the one that is followed. -/
  pattern_eq : f.pattern = pattern
  /-- Not more was read than was announced. -/
  position_le : f.position ≤ s.events.length
  /-- Nothing is yielded that is not to be yielded, or twice. -/
  sublist : (read ++ f.ahead s.events).Sublist due
  /-- Nothing is lost of a feed that has kept up. -/
  complete : (∀ p ∈ seen, p.1.KeepsUp p.2) → read ++ f.ahead s.events = due
  /-- The messages are in the order of their numbers. -/
  ascending : due.Pairwise fun m w => m.sequence < w.sequence
  /-- What will come gets a number behind them. -/
  due_le : s ∈ b.streams → ∀ m ∈ due, m.sequence ≤ s.index.lastSeq
  /-- What will come is shown. -/
  high_le : s ∈ b.streams → f.high ≤ s.index.lastSeq

/-- A feed that is opened has everything ahead. -/
theorem follows_of_watch (history : History (b :: past))
    (hlegible : beginning = .lastPerSubject → ∀ t ∈ b :: past, t.backend.IsLegible)
    (hwatch : (watch id pattern beginning).run b = (.ok f, b'))
    (hs : b'.streamById? f.stream = some s) :
    b'.Follows f s pattern seen (s.index.due pattern beginning []) [] := by
  obtain ⟨u, hu, rfl, rfl, hstep⟩ := run_watch_cases history.staffed hwatch
  have history' := history.step hstep
  obtain rfl : u = s := Option.some.inj ((history'.staffed.streamById?_eq hu).symm.trans hs)
  have hmem : u ∈ b'.known := List.mem_append_left _ hu
  have hfiled := history'.filed u hmem
  have hahead := Feed.ahead_start u pattern beginning b.settings.watchBuffer
  rw [Stream.snapshot_eq pattern fun h => history'.sound (hlegible h) u hmem] at hahead
  exact {
    history := ⟨_, history'⟩
    found := hs
    pattern_eq := rfl
    position_le := Nat.le_refl _
    sublist := by
      rw [hahead, Index.due]
      exact List.sublist_append_left _ _
    complete := by
      rw [hahead, Index.due]
      simp
    ascending := by
      rw [Index.due, List.filter_nil, List.append_nil]
      exact hfiled.pairwise_selected pattern beginning
    due_le := by
      intro _ m hm
      rw [Index.due, List.filter_nil, List.append_nil] at hm
      exact hfiled.le_lastSeq (hfiled.mem_toList_iff.1 (Index.mem_toList_of_selected hm))
    high_le := fun _ => Nat.le_refl _ }

/-- A step adds what comes by it to what is ahead. -/
theorem Follows.moved {due : List StoredMessage} (h : b.Follows f s pattern seen due read)
    (hstep : b.Step b') (hs' : b'.streamById? f.stream = some s') :
    b'.Follows f s' pattern ((b', f) :: seen)
      (due ++ (s.newcomers s').filter fun m => subjectMatches m.subject pattern) read := by
  obtain ⟨past, history⟩ := h.history
  obtain ⟨hmem, hid⟩ := known_of_streamById? h.found
  obtain ⟨hmem', hid'⟩ := known_of_streamById? hs'
  have history' := history.step hstep
  have hpasses := hstep.passes history.staffed history.filed hmem hmem' (hid'.trans hid.symm)
  -- Nothing comes into a stream that is gone, and what comes is not older than what was there.
  have hnew {m : StoredMessage} (hm : m ∈ s.newcomers s') :
      s ∈ b.streams ∧ s.index.lastSeq < m.sequence ∧ m.sequence ≤ s'.index.lastSeq := by
    refine ⟨by_contra fun hgone => ?_, of_decide_eq_true (List.mem_filter.1 hm).2, ?_⟩
    · rw [hpasses.newcomers_eq hgone] at hm
      cases hm
    · have hfiled := history'.filed s' hmem'
      exact hfiled.le_lastSeq (hfiled.mem_toList_iff.1 (List.mem_filter.1 hm).1)
  have hshown : (s.newcomers s').filter f.shows =
      (s.newcomers s').filter fun m => subjectMatches m.subject pattern := by
    refine List.filter_congr fun m hm => ?_
    obtain ⟨hlive, hlt, -⟩ := hnew hm
    have hhigh : f.high < m.sequence := Nat.lt_of_le_of_lt (h.high_le hlive) hlt
    rw [Feed.shows, h.pattern_eq, decide_eq_true hhigh, Bool.true_and]
  exact {
    history := ⟨_, history'⟩
    found := hs'
    pattern_eq := h.pattern_eq
    position_le := by
      rw [hpasses.events_eq, List.length_append]
      exact Nat.le_add_left_of_le h.position_le
    sublist := by
      have hsublist := Feed.ahead_append_sublist h.position_le (s.newcomers s').reverse
      rw [List.reverse_reverse, hshown, ← hpasses.events_eq] at hsublist
      refine ((List.Sublist.refl read).append hsublist).trans ?_
      rw [← List.append_assoc]
      exact h.sublist.append (List.Sublist.refl _)
    complete := by
      intro hkeeps
      rw [List.forall_mem_cons] at hkeeps
      have hkeep := hkeeps.1 s' hs'
      rw [hpasses.events_eq] at hkeep
      rw [hpasses.events_eq, Feed.ahead_append h.position_le hkeep, List.reverse_reverse, hshown,
        ← List.append_assoc, h.complete hkeeps.2]
    ascending := by
      refine List.pairwise_append.2 ⟨h.ascending, ?_, fun m hm w hw => ?_⟩
      · exact ((history'.filed s' hmem').pairwise_toList.filter _).filter _
      · obtain ⟨hlive, hlt, -⟩ := hnew (List.mem_filter.1 hw).1
        exact Nat.lt_of_le_of_lt (h.due_le hlive m hm) hlt
    due_le := by
      intro hlive m hm
      obtain ⟨hbefore, hle⟩ := hpasses.live hlive
      rcases List.mem_append.1 hm with hm | hm
      · exact Nat.le_trans (h.due_le hbefore m hm) hle
      · exact (hnew (List.mem_filter.1 hm).1).2.2
    high_le := by
      intro hlive
      obtain ⟨hbefore, hle⟩ := hpasses.live hlive
      exact Nat.le_trans (h.high_le hbefore) hle }

/-- What keeps up after a step has kept up before, for announcements stay. -/
theorem Follows.keepsUp_of_step {due : List StoredMessage}
    (h : b.Follows f s pattern seen due read) (hstep : b.Step b')
    (hs' : b'.streamById? f.stream = some s') (hkeeps : b'.KeepsUp f) : b.KeepsUp f := by
  intro t ht
  obtain rfl : s = t := Option.some.inj (h.found.symm.trans ht)
  obtain ⟨past, history⟩ := h.history
  obtain ⟨hmem, hid⟩ := known_of_streamById? h.found
  obtain ⟨hmem', hid'⟩ := known_of_streamById? hs'
  have hpasses := hstep.passes history.staffed history.filed hmem hmem' (hid'.trans hid.symm)
  have hlength := hkeeps s' hs'
  rw [Feed.KeepsUp, hpasses.events_eq, List.length_append] at hlength
  exact Nat.le_trans (Nat.le_add_left _ _) hlength

/-- It is enough to have kept up at some of the times. -/
theorem Follows.seenAt {due : List StoredMessage} (h : b.Follows f s pattern seen due read)
    {seen' : List (Broker × Feed)}
    (hseen : (∀ p ∈ seen', p.1.KeepsUp p.2) → ∀ p ∈ seen, p.1.KeepsUp p.2) :
    b.Follows f s pattern seen' due read :=
  { h with complete := fun hkeeps => h.complete (hseen hkeeps) }

/-- Reading takes from what is ahead. -/
theorem Follows.drained {α : Type} {item : StoredMessage → Option α} {items : List α}
    {due : List StoredMessage} {most : Option Nat} (h : b.Follows f s pattern seen due read)
    (hdrain : b.drain f item most = (items, f')) :
    ∃ taken, items = taken.filterMap item ∧
      b.Follows f' s pattern ((b, f') :: seen) due (read ++ taken) := by
  simp only [drain, h.found, Option.map_some, Option.getD_some] at hdrain
  obtain ⟨taken, rest, hahead, rfl, hrest, hadvances, hposition, -⟩ := Feed.drain_cases hdrain
  have hline : read ++ taken ++ f'.ahead s.events = read ++ f.ahead s.events := by
    rw [hrest, hahead, List.append_assoc]
  refine ⟨taken, rfl, h.history, hadvances.stream_eq ▸ h.found,
    hadvances.pattern_eq.trans h.pattern_eq, hposition h.position_le, hline ▸ h.sublist,
    fun hkeeps => ?_, h.ascending, h.due_le, hadvances.high_eq ▸ h.high_le⟩
  rw [hline]
  exact h.complete fun p hp => hkeeps p (List.mem_cons_of_mem _ hp)

/-- Reading without a bound reads what is ahead. -/
theorem drain_none {α : Type} (item : StoredMessage → Option α)
    (hs : b.streamById? f.stream = some s) :
    (b.drain f item none).1 = (f.ahead s.events).filterMap item := by
  cases hdrain : b.drain f item none with
  | mk items f' =>
    simp only [drain, hs, Option.map_some, Option.getD_some] at hdrain
    obtain ⟨taken, rest, hahead, rfl, -, -, -, hall⟩ := Feed.drain_cases hdrain
    rw [hahead, hall (Nat.le_refl _), List.append_nil]

/-- At any time a feed is on its way along the messages that it is to yield. -/
theorem Watching.follows (h : Watching pattern beginning x ((b, f) :: seen) came read) :
    ∃ s, b.Follows f s pattern ((b, f) :: seen) (x.due pattern beginning came) read := by
  generalize hstates : (b, f) :: seen = states at h
  induction h generalizing b f seen with
  | opened history hlegible hwatch hs =>
    cases hstates
    exact ⟨_, follows_of_watch history hlegible hwatch hs⟩
  | @moved _ _ _ s s' _ _ came _ h hstep hs hs' ih =>
    cases hstates
    obtain ⟨u, hfollows⟩ := ih rfl
    obtain rfl : u = s := Option.some.inj (hfollows.found.symm.trans hs)
    have hmoved := hfollows.moved hstep hs'
    rw [Index.due, List.append_assoc, ← List.filter_append] at hmoved
    exact ⟨s', hmoved⟩
  | drained h hdrain ih =>
    cases hstates
    obtain ⟨s, hfollows⟩ := ih rfl
    obtain ⟨taken, rfl, hdrained⟩ := hfollows.drained hdrain
    rw [List.filterMap_some]
    exact ⟨s, hdrained⟩

/-- **A feed yields what it began with and what has come**, each message once and in the order of
the numbers, if the reader keeps up; otherwise it leaves some of them out.  This is said of all that
was read, together with what there still is to be read. -/
theorem Watching.yields (h : Watching pattern beginning x ((b, f) :: seen) came read) :
    (read ++ (b.drain f some none).1).Pairwise (fun m w => m.sequence < w.sequence) ∧
      (read ++ (b.drain f some none).1).Sublist (x.due pattern beginning came) ∧
      ((∀ p ∈ (b, f) :: seen, p.1.KeepsUp p.2) →
        read ++ (b.drain f some none).1 = x.due pattern beginning came) := by
  obtain ⟨s, hfollows⟩ := h.follows
  rw [drain_none some hfollows.found, List.filterMap_some]
  exact ⟨hfollows.ascending.sublist hfollows.sublist, hfollows.sublist, hfollows.complete⟩

/-- A stream in memory that keeps two messages. -/
def smallSettings : StreamSettings :=
  { name := "S", subjects := ["s.*"], storage := .memory, maxMessages := some 2 }

/-- A message about a subject is stored in the first stream. -/
def tell (b : Broker) (subject : String) : Broker :=
  (onStream 0 ((StreamOp.publish 0 {} ⟨subject, [], []⟩).run b.clock) b).2

/-- The message that is then stored. -/
def toldAs (subject : String) (n : Nat) : StoredMessage :=
  Message.stored ⟨subject, [], []⟩ n Stream.epochClock.wall.toMicro

/-- Three messages have come to the stream, and the first of them has gone. -/
def told : Broker :=
  let b := start {} 0 Stream.epochClock Stream.blankBackend
  tell (tell (tell ((openStream smallSettings).run b).2 "s.a") "s.b") "s.a"

/-- Then a feed is opened. -/
def listening : Except Error Feed × Broker := (watch 0 "s.*" .all).run told

/-- It begins with the messages that are there. -/
def heard : Feed where
  stream := 0
  pattern := "s.*"
  snapshot := [toldAs "s.b" 2, toldAs "s.a" 3]
  high := 3
  position := 3
  capacity := 1024

/-- One of them is read. -/
def heardOne : Feed := { heard with snapshot := [toldAs "s.a" 3] }

/-- Then a message comes that takes the place of the one that was read. -/
def toldMore : Broker := tell listening.2 "s.b"

/-- The feed yields the message that has come as well. -/
theorem yields_told : ∃ x seen came,
    Watching "s.*" .all x ((toldMore, heardOne) :: seen) came [toldAs "s.b" 2] ∧
      x.due "s.*" .all came = [toldAs "s.b" 2, toldAs "s.a" 3, toldAs "s.b" 4] ∧
      (∀ p ∈ (toldMore, heardOne) :: seen, p.1.KeepsUp p.2) ∧
      [toldAs "s.b" 2] ++ (toldMore.drain heardOne some none).1 = x.due "s.*" .all came := by
  have hstep (b : Broker) (subject : String)
      (hreply : (onStream 0 ((StreamOp.publish 0 {} ⟨subject, [], []⟩).run b.clock) b).1 ≠
        .error .numbersExhausted) : b.Step (b.tell subject) :=
    @Step.operated b 0 b.nextId (.publish 0 {} ⟨subject, [], []⟩) (fun _ _ => trivial)
      (Nat.le_refl _) hreply
  have hstarted := History.started {} 0 Stream.blankBackend
    (show Stream.epochClock.IsDated from rfl)
  have hopened := hstarted.step (.opened smallSettings)
  have hfirst := hopened.step (hstep _ "s.a" (by decide +kernel))
  have hsecond := hfirst.step (hstep _ "s.b" (by decide +kernel))
  have history : History (told :: _) := hsecond.step (hstep _ "s.a" (by decide +kernel))
  have hwatch : (watch 0 "s.*" .all).run told = (.ok heard, listening.2) :=
    Prod.ext (by decide +kernel) rfl
  have hdue : ∀ s ∈ listening.2.streamById? heard.stream,
      ∀ s' ∈ toldMore.streamById? heard.stream, s.index.due "s.*" .all ([] ++ s.newcomers s') =
        [toldAs "s.b" 2, toldAs "s.a" 3, toldAs "s.b" 4] := by decide +kernel
  obtain ⟨s, hs⟩ : ∃ s, listening.2.streamById? heard.stream = some s :=
    Option.isSome_iff_exists.1 (by decide +kernel)
  obtain ⟨s', hs'⟩ : ∃ s, toldMore.streamById? heard.stream = some s :=
    Option.isSome_iff_exists.1 (by decide +kernel)
  have hdrain : listening.2.drain heard some (some 1) = ([toldAs "s.b" 2], heardOne) := by
    decide +kernel
  have hbegan := Watching.opened history (fun h => by cases h) hwatch hs
  have hread := hbegan.drained hdrain
  have hmoved := Watching.moved hread (hstep _ "s.b" (by decide +kernel)) hs hs'
  refine ⟨_, _, _, hmoved, hdue s hs s' hs', by decide +kernel, ?_⟩
  exact hmoved.yields.2.2 (by decide +kernel)

end Broker

end StreamBroker
