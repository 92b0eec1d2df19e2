import StreamBroker.Proofs.Broker.Ages
import StreamBroker.Proofs.Stream.Steady

/-!
# Journals that hold no more than their streams

When all calls to its store succeed, a broker has in the journal of a stream no message that is not
in the stream: a message is written before it comes into the index, but when it is written it also
comes, and what goes from the index goes from the journal in the same step.  So what happens to the
front of a journal happens to messages that the stream knows of, and to nothing else.

A journal that was left with more than its stream, by a call that failed, does not stay like that
either: the next broker reads back what is there.  Only the entry of the largest number is never
read, and a stream that is opened again does not know of it.

## Main definitions

* `Stream.IsFaithful`: the journal of a stream holds no message that the stream has not
* `Broker.IsFaithful`: so it is with all streams of a broker whose calls succeed
* `Broker.FaultlessStep`: what happens to a broker, where no call is made to fail

## Main results

* `Stream.within_of_reread`: a journal holds no message that is not read back from it
* `Broker.isFaithful_of_reached`: so it is with a broker at any time
-/

namespace StreamBroker

/-! ## Streams -/

namespace Stream

variable {s s' : Stream} {b b' : Backend} {ms : List StoredMessage} {ns : String}
  {settings : StreamSettings} {x : Index}

/-- The journal of a stream holds no message that the stream has not. -/
def IsFaithful (s : Stream) (store : LogStore) : Prop :=
  ∀ ns, s.journal? = some ns → ∃ log, store.Holds ns log ∧ Journal.Within log s.index

namespace IsFaithful

theorem backed (hs : s.IsFaithful b.store) (hb : b.faults = []) : s.Backed b := by
  intro hjournaled
  obtain ⟨log, hholds, -⟩ := hs _ (journal?_of_isJournaled hjournaled)
  exact ⟨log, hb, hholds⟩

theorem moves (hs : s.IsFaithful b.store) (hx : s.index.Sound) (hb : b.faults = [])
    (h : s.Moves b ms s' b') : s'.IsFaithful b'.store := by
  intro ns hns
  rw [h.journal] at hns
  obtain ⟨log, hholds, hlog⟩ := hs ns hns
  have hrun := h.run
  rw [hns] at hrun
  obtain ⟨log', hkeeps, hlog'⟩ := hrun.within hx ⟨hb, hholds⟩ hlog
  exact ⟨log', hkeeps.holds, hlog'⟩

/-- Calls about other journals are nothing to a stream. -/
theorem performs (hs : s.IsFaithful b.store) (hb : b.faults = []) {p : LogCall → Prop}
    (h : b.Performs p b') (hp : ∀ call, p call → s.journal? ≠ some call.ns) :
    s.IsFaithful b'.store := by
  intro ns hns
  obtain ⟨log, hholds, hlog⟩ := hs ns hns
  have helsewhere : Backend.Elsewhere ns b b' := h.elsewhere fun call hcall heq =>
    hp call hcall (hns.trans (congrArg some heq))
  exact ⟨log, (helsewhere log ⟨hb, hholds⟩).holds, hlog⟩

end IsFaithful

/-- A journal holds no message that is not read back from it. -/
theorem within_of_reread (hb : b.faults = []) (hns : settings.journal? = some ns)
    (hstore : b.store.Gives ns Journal.Readable) (h : reread settings b = (.ok x, b')) :
    x.Sound ∧ ∃ log, b'.Keeps ns log ∧ Journal.Within log x := by
  rcases hstore with hrefuses | ⟨log, hholds, hlog⟩
  · -- Nothing would have been read back.
    obtain ⟨reply, hreply⟩ := answers_of_reread hns h
    obtain ⟨e, he⟩ := hrefuses.readRange
    rw [he] at hreply
    cases hreply
  · obtain ⟨r, b₁, hr, hb₁, hread⟩ := reread_spec hns ⟨hb, hholds⟩ hlog
    rw [h] at hread
    split at hread
    · cases hread
    · cases hread
      exact ⟨hr.restore_sound, log, hb₁, hr.within_restore hlog⟩

theorem isFaithful_of_open? {id : Nat} {clock : Clock} (hb : b.faults = [])
    (hstore : ∀ ns, settings.journal? = some ns → b.store.Gives ns Journal.Readable)
    (h : open? id settings clock b = (.ok s, b')) : s.IsFaithful b'.store := by
  obtain ⟨x, b₁, hread, rfl, hrun⟩ := moves_of_open? h
  intro ns hns
  have hns : s.settings.journal? = some ns := hns
  obtain ⟨hx, log, hkeeps, hlog⟩ := within_of_reread hb hns (hstore ns hns) hread
  rw [hns] at hrun
  obtain ⟨log', hkeeps', hlog'⟩ := hrun.within hx hkeeps hlog
  exact ⟨log', hkeeps'.holds, hlog'⟩

/-- Whether or not a stream comes to be opened, the calls are about its journal. -/
theorem performs_open? (id : Nat) (settings : StreamSettings) (clock : Clock) (b : Backend) :
    b.Performs (fun call => settings.journal? = some call.ns) (open? id settings clock b).2 := by
  have hreread := (performs_reread settings b).mono fun _ hcall => hcall.1
  cases hopen : open? id settings clock b with
  | mk reply b' =>
    rcases open?_cases hopen with ⟨e, hread⟩ | ⟨x, b₁, hread, hrun⟩
    · rwa [hread] at hreread
    · rw [hread] at hreread
      exact hreread.trans hrun.performs

/-- A stream that is destroyed takes its journal with it, and nothing else. -/
theorem performs_destroy (s : Stream) (b : Backend) :
    b.Performs (fun call => s.journal? = some call.ns) (s.destroy b).2.2 := by
  rw [destroy]
  dsimp only
  split
  · next hjournaled => exact Backend.performs_perform b (journal?_of_isJournaled hjournaled)
  · exact .refl

end Stream

/-! ## Brokers -/

namespace Broker

variable {b b' : Broker} {s u : Stream} {backend : Backend} {ms : List StoredMessage}

/-- The journals of all streams of a broker hold no more than these. -/
def JournalsFaithful (b : Broker) : Prop := ∀ s ∈ b.streams, s.IsFaithful b.backend.store

/-- A broker whose calls succeed has no more in the journals of its streams than in these. -/
structure IsFaithful (b : Broker) : Prop where
  /-- All messages are in the order of time. -/
  timely : b.IsTimely
  /-- No call is to fail. -/
  faults_eq : b.backend.faults = []
  /-- The journals of the streams hold no more than these. -/
  streams : b.JournalsFaithful

/-- What happens to a broker that has its store to itself, where no call is made to fail. -/
structure FaultlessStep (b b' : Broker) : Prop where
  /-- It happens to the broker. -/
  own : b.OwnStep b'
  /-- No call is to fail afterwards. -/
  faults_eq : b'.backend.faults = []

namespace JournalsFaithful

/-- Streams go, and what is in the others stays, and what is in the store. -/
theorem of_streams (h : b.JournalsFaithful)
    (hstreams : ∀ s' ∈ b'.streams, ∃ s ∈ b.streams, s'.index = s.index ∧
      s'.journal? = s.journal?)
    (hstore : b'.backend.store = b.backend.store) : b'.JournalsFaithful := by
  intro s' hs' ns hns
  obtain ⟨s, hs, hindex, hjournal⟩ := hstreams s' hs'
  rw [hindex, hstore]
  exact h s hs ns (hjournal ▸ hns)

/-- What stays when only consumers have changed. -/
theorem modifyConsumer (h : b.JournalsFaithful) (hb : b.Staffed) (stream consumer : Nat)
    (f : Consumer → Consumer) : (b.modifyConsumer stream consumer f).JournalsFaithful := by
  refine h.of_streams (fun s' hs' => ?_) (by rw [backend_modifyConsumer])
  obtain ⟨s, hs, -, hkept⟩ := hb.of_mem_modifyConsumer hs'
  exact ⟨s, hs, hkept⟩

end JournalsFaithful

namespace IsFaithful

theorem backed (hb : b.IsFaithful) (hs : s ∈ b.streams) : s.Backed b.backend :=
  (hb.streams s hs).backed hb.faults_eq

theorem sound (hb : b.IsFaithful) (hs : s ∈ b.streams) : s.index.Sound :=
  (hb.timely.streams s hs).sound

/-- All that is read back from the store can be read. -/
theorem readable (hb : b.IsFaithful) (ns : String) :
    b.backend.store.Gives ns Journal.Readable :=
  (hb.timely.store ns).mono fun _ hlog => hlog.readable

/-- What happens to one stream happens to it and its journal alone. -/
theorem put (hb : b.IsFaithful) {next : Nat} (hs : s ∈ b.streams) (hid : u.id = s.id)
    (h : s.Moves b.backend ms u backend) :
    ({ b with backend, nextId := next }.putStream u).JournalsFaithful := by
  intro t ht
  rcases mem_map_put ht with ⟨rfl, -⟩ | ⟨hmem, hne⟩
  · exact (hb.streams s hs).moves (hb.sound hs) hb.faults_eq h
  · refine (hb.streams t hmem).performs hb.faults_eq h.run.performs fun call hcall htns => hne ?_
    rw [hid]
    exact hb.timely.apart t hmem s hs call.ns htns hcall

theorem onStream (hb : b.IsFaithful) {id next : Nat} {op : StreamOp}
    (hop : ∀ s, b.liveStream id = .ok s → op.IsProper s)
    (hreply : (Broker.onStream id (op.run b.clock) { b with nextId := next }).1 ≠
      .error .numbersExhausted) :
    (Broker.onStream id (op.run b.clock) { b with nextId := next }).2.JournalsFaithful := by
  cases operates id next op b with
  | missed hlive heq =>
    rw [heq]
    exact hb.streams
  | ran hlive hrun heq =>
    rw [heq] at hreply ⊢
    have hs := (liveStream_eq_ok hlive).1
    obtain ⟨ms, hmoves, -⟩ :=
      StreamOp.moves_run_present hb.timely.staffed.dated (hop _ hlive) hrun hreply
    have hid := (StreamOp.attends_run (hb.timely.staffed.roster _ hs) hrun hreply).1
    exact hb.put hs hid hmoves

theorem lookOnce (hb : b.IsFaithful) {p : Pull} (hbatch : p.request.batch ≠ 0)
    (hreply : (glance p b).1.IsAnswered) : (Broker.lookOnce p b).JournalsFaithful := by
  have hglance : (glance p b).2.JournalsFaithful := by
    rcases glance_run hb.timely.staffed hreply with
      heq | ⟨s, hs, consumer, limits, reply, u, backend, hrun, hne, heq⟩
    · exact heq.symm ▸ hb.streams
    · have hproper : (StreamOp.collect consumer limits).IsProper s := trivial
      obtain ⟨ms, hmoves, -⟩ :=
        StreamOp.moves_run_present hb.timely.staffed.dated hproper hrun hne
      have hid := (StreamOp.attends_run (hb.timely.staffed.roster s hs) hrun hne).1
      rw [heq]
      -- A look gives no number, which the lemma about streams that are put back leaves open.
      show ({ b with backend, nextId := b.nextId }.putStream u).JournalsFaithful
      exact hb.put hs hid hmoves
  have hstaffed := (carries_glance hb.timely.staffed hbatch hreply).1.staffed
  rw [Broker.lookOnce]
  cases hg : glance p b with
  | mk r t =>
    rw [hg] at hglance hstaffed
    cases r with
    | «over» result =>
      exact (hglance.modifyConsumer hstaffed p.stream p.consumer _).of_streams
        (fun s hs => ⟨s, hs, rfl, rfl⟩) rfl
    | waits q => exact hglance.of_streams (fun s hs => ⟨s, hs, rfl, rfl⟩) rfl

/-- A stream of a new name is opened faithful, if it comes to be opened. -/
theorem openStream (hb : b.IsFaithful) {settings : StreamSettings}
    (hname : b.stream? settings.name = none) :
    ((Broker.openStream settings).run b).2.JournalsFaithful := by
  -- No other stream has its journal.
  have hkept {reply : Except Error Stream} {backend : Backend}
      (hopen : Stream.open? b.nextId settings b.clock b.backend = (reply, backend)) :
      ∀ t ∈ b.streams, t.IsFaithful backend.store := by
    intro t ht
    have hperforms := Stream.performs_open? b.nextId settings b.clock b.backend
    rw [hopen] at hperforms
    refine (hb.streams t ht).performs hb.faults_eq hperforms fun call hcall hns => ?_
    exact journal?_ne_of_new hname ht hns hcall
  cases opens settings b with
  | failed hopen heq | ringless hopen heq =>
    rw [heq]
    exact hkept hopen
  | opened hopen heq =>
    rw [heq]
    intro t ht
    rcases List.mem_append.1 ht with ht | ht
    · exact hkept hopen t ht
    · rw [List.mem_singleton.1 ht]
      exact Stream.isFaithful_of_open? hb.faults_eq (fun ns _ => hb.readable ns) hopen

/-- With a stream its journal goes, and no other. -/
theorem deleteStream (hb : b.IsFaithful) (name : String) :
    ((Broker.deleteStream name).run b).2.JournalsFaithful := by
  cases deletes name b with
  | missed hnone heq =>
    rw [heq]
    exact hb.streams
  | @deleted s gone reply backend hs hdestroy heq =>
    rw [heq]
    intro t ht
    obtain ⟨hmem, hne⟩ := List.mem_filter.1 ht
    have hperforms := s.performs_destroy b.backend
    rw [hdestroy] at hperforms
    refine (hb.streams t hmem).performs hb.faults_eq hperforms fun call hcall htns => ?_
    have hid := hb.timely.apart t hmem s hs call.ns htns hcall
    simp [hid] at hne

end IsFaithful

/-- **A step leaves a broker faithful**, if no call fails. -/
theorem FaultlessStep.isFaithful (hb : b.IsFaithful) (h : b.FaultlessStep b') : b'.IsFaithful := by
  refine ⟨h.own.isTimely hb.timely, h.faults_eq, ?_⟩
  cases h.own with
  | operated hop hnext hreply => exact hb.onStream hop hreply
  | looked hbatch hreply => exact hb.lookOnce hbatch hreply
  | opened hname => exact hb.openStream hname
  | deleted name => exact hb.deleteStream name
  | attended stream consumer a => exact hb.streams.modifyConsumer hb.timely.staffed _ _ _
  | waited hnow hclock => exact hb.streams
  | aside hstreams hformer hclock hnext hstore =>
    exact hb.streams.of_streams (fun s hs => ⟨s, hstreams ▸ hs, rfl, rfl⟩) hstore
  | restarted => exact fun s hs => by cases hs

theorem isFaithful_of_reached {settings : BrokerSettings} {seed : Nat} {clock : Clock}
    (hclock : clock.IsDated) (hfaults : backend.faults = [])
    (hstore : backend.store.IsDated clock.wall.toMicro)
    (h : Relation.ReflTransGen FaultlessStep (start settings seed clock backend) b) :
    b.IsFaithful := by
  induction h with
  | refl =>
    exact ⟨isTimely_start settings seed hclock hstore, hfaults, fun s hs => by cases hs⟩
  | tail run h ih => exact h.isFaithful ih

end Broker

end StreamBroker
