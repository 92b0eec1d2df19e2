import StreamBroker.Proofs.Index.Dated
import StreamBroker.Proofs.Journal.Crash
import StreamBroker.Proofs.Journal.Legible
import StreamBroker.Proofs.Journal.Performed

/-!
# Journals in the order of time

A journal keeps the order of time whatever becomes of its calls.  A message is written under a
number above all that can be read back, and a message that should have gone and did not is still
where it was among the others.  So what a journal gives back to a broker that starts anew is in the
order of time as well.

A store in a directory has no place for some namespaces, those with names that no directory can
have.  Every call about such a namespace fails, and no stream comes to be opened from it.

## Main definitions

* `LogStore.Gives`: what a store has under a namespace is a log with a property
* `Journal.IsDated`: the messages of a log come in the order of time, up to a number
* `Stream.IsDated`: so do the messages of a stream, and those of its journal

## Main results

* `LogRun.gives`, `LogRun.gives_of_ne`: what the steps of a log do to its journal and to others
* `Stream.IsDated.moves`: what happens to a stream leaves it in the order of time
* `Stream.isDated_of_open?`: a stream is opened in the order of time
-/

namespace StreamBroker

/-! ## What a store gives -/

namespace LogStore

variable {s : LogStore} {ns : String} {P Q : SeqMap Bytes → Prop} {call : LogCall}

/-- A store has no place for a namespace. -/
def Refuses : LogStore → String → Prop
  | memory _, _ => False
  | directory s, ns => ∃ e, s.directory? ns = .error e

/-- What a store has under a namespace is a log with a property, if it has a place for the
namespace. -/
def Gives (s : LogStore) (ns : String) (P : SeqMap Bytes → Prop) : Prop :=
  s.Refuses ns ∨ ∃ log, s.Holds ns log ∧ P log

/-- A call about a namespace that has no place changes nothing. -/
theorem Refuses.answer (h : s.Refuses call.ns) : (s.answer call).2 = s := by
  cases s with
  | memory s => exact h.elim
  | directory s =>
    obtain ⟨e, he⟩ := h
    simp only [LogStore.answer]
    cases call with
    | append ns es =>
      simp only [LogCall.ns] at he
      simp only [DirectoryStore.answer, DirectoryStore.append, he]
      split <;> rfl
    | bounds ns => rfl
    | readRange ns start stop => rfl
    | compactBefore ns index =>
      simp only [LogCall.ns] at he
      simp only [DirectoryStore.answer, DirectoryStore.compactBefore, he]
    | removeNamespace ns =>
      simp only [LogCall.ns] at he
      simp only [DirectoryStore.answer, he]
    | deleteEntry ns index =>
      simp only [LogCall.ns] at he
      simp only [DirectoryStore.answer, DirectoryStore.deleteEntry, he]

theorem Refuses.answer_of_ne (h : s.Refuses ns) (hne : ns ≠ call.ns) :
    (s.answer call).2.Refuses ns := by
  cases s with
  | memory s => exact h.elim
  | directory s =>
    obtain ⟨e, he⟩ := h
    exact ⟨e, (DirectoryStore.directory?_answer_of_ne hne).trans he⟩

/-- Nothing is read where there is no place. -/
theorem Refuses.readRange {start stop : Nat} (h : s.Refuses ns) :
    ∃ e, (s.answer (.readRange ns start stop)).1 = .error e := by
  cases s with
  | memory s => exact h.elim
  | directory s =>
    obtain ⟨e, he⟩ := h
    refine ⟨e, ?_⟩
    simp only [LogStore.answer, DirectoryStore.answer, DirectoryStore.readRange, he]
    rfl

namespace Gives

theorem mono (h : s.Gives ns P) (hPQ : ∀ log, P log → Q log) : s.Gives ns Q :=
  h.imp_right fun ⟨log, hholds, hlog⟩ => ⟨log, hholds, hPQ log hlog⟩

/-- A call whose effect keeps a property leaves it so, whatever it is answered. -/
theorem answer (h : s.Gives call.ns P) (hrange : call.IsInRange)
    (hP : ∀ log, P log → P (call.effect log).2) : (s.answer call).2.Gives call.ns P := by
  rcases h with hrefuses | ⟨log, hholds, hlog⟩
  · rw [hrefuses.answer]
    exact .inl hrefuses
  · exact .inr ⟨_, (hholds.answer hrange).2, hP log hlog⟩

theorem answer_of_ne (h : s.Gives ns P) (hne : ns ≠ call.ns) : (s.answer call).2.Gives ns P :=
  h.imp (·.answer_of_ne hne) fun ⟨log, hholds, hlog⟩ => ⟨log, hholds.answer_of_ne hne, hlog⟩

end Gives

end LogStore

/-! ## Calls to a backend -/

namespace Backend

variable {b : Backend} {ns : String} {P : SeqMap Bytes → Prop}

/-- A call is made to fail and changes nothing in the store, or the store answers it. -/
theorem store_perform_cases (b : Backend) (call : LogCall) :
    (b.perform call).2.store = b.store ∨
      (b.perform call).1 = (b.store.answer call).1 ∧
        (b.perform call).2.store = (b.store.answer call).2 := by
  rcases b.perform_cases call with ⟨e, -, hstore⟩ | ⟨hreply, hhealed⟩
  · exact .inl hstore
  · refine .inr ⟨hreply, ?_⟩
    rw [perform_of_faults_eq (b := b.healed) rfl] at hhealed
    exact congrArg Backend.store hhealed

/-- A call leaves a property of a log alone, if it is about another one, or if its effect keeps the
property. -/
theorem gives_perform (call : LogCall) (h : b.store.Gives ns P)
    (hcall : call.ns = ns → call.IsInRange ∧ ∀ log, P log → P (call.effect log).2) :
    (b.perform call).2.store.Gives ns P := by
  rcases b.store_perform_cases call with hstore | ⟨-, hstore⟩
  · rwa [hstore]
  · rw [hstore]
    by_cases hns : call.ns = ns
    · obtain ⟨hrange, hP⟩ := hcall hns
      subst hns
      exact h.answer hrange hP
    · exact h.answer_of_ne (Ne.symm hns)

theorem Performs.gives {b' : Backend} {p : LogCall → Prop} (hcalls : b.Performs p b')
    (h : b.store.Gives ns P) (hp : ∀ call, p call → call.ns = ns → call.IsInRange ∧
      ∀ log, P log → P (call.effect log).2) : b'.store.Gives ns P := by
  induction hcalls with
  | refl => exact h
  | tail _ hlast ih =>
    obtain ⟨call, hcall, rfl⟩ := hlast
    exact gives_perform call ih (hp call hcall)

end Backend

/-! ## Journals -/

namespace Journal

variable {now later : Timestamp} {n k : Nat} {log : SeqMap Bytes} {m : StoredMessage}

/-- The messages of a log come in the order of time, and it has no entry above a number. -/
structure IsDated (now : Timestamp) (n : Nat) (log : SeqMap Bytes) : Prop extends Upto log n where
  /-- The messages that are read come in the order of time. -/
  chronological : Chronological now fun m => MessageAt log m.sequence m

namespace IsDated

theorem mono (h : IsDated now n log) (hn : n ≤ k)
    (hle : now.sinceEpoch ≤ later.sinceEpoch) : IsDated later k log where
  readable := h.readable
  entry hget hlt := Nat.le_trans (h.entry hget hlt) hn
  watermark hget :=
    let ⟨w, hw, hoctets⟩ := h.watermark hget
    ⟨w, Nat.le_trans hw hn, hoctets⟩
  chronological := h.chronological.of_subset (fun _ hm => hm) hle

theorem empty (now : Timestamp) (n : Nat) : IsDated now n SeqMap.empty where
  readable := Mirrors.empty.readable Index.empty_sound
  entry hget := by cases hget
  watermark hget := by cases hget
  chronological :=
    have hnone (m : StoredMessage) : ¬MessageAt SeqMap.empty m.sequence m :=
      fun ⟨_, _, _, hget, _⟩ => nomatch hget
    ⟨fun hm => (hnone _ hm).elim, fun hm => (hnone _ hm).elim⟩

/-- A call that removes leaves the order of time. -/
theorem removing (h : IsDated now n log) (hn : n < wordLimit) {call : LogCall}
    (hcall : call.IsRemoving n) : IsDated now n (call.effect log).2 where
  toUpto := h.toUpto.of_get? hn (get?_of_isRemoving hcall)
  chronological := by
    refine h.chronological.of_subset (fun w hw => ?_) (Int.le_refl _)
    obtain ⟨hne, hlt, octets, hget, hdecode⟩ := hw
    have hget := (get?_of_isRemoving hcall hget).resolve_right fun hmark => hne hmark.1
    exact ⟨hne, hlt, octets, hget, hdecode⟩

/-- A message that is written now, above all others, is in the order of time. -/
theorem insert (h : IsDated now m.sequence log) {octets : Bytes} (hpos : 0 < m.sequence)
    (hlt : m.sequence < wordLimit) (htime : m.timestamp = now) (hkept : m.timestamp.IsKept)
    (hencode : Entry.encode m = .ok octets) :
    IsDated now m.sequence (log.insert m.sequence octets) where
  readable := h.readable.insert (isEntry_of_encode (Nat.ne_of_gt hpos) hlt hkept hencode)
  entry {k _} hget hk := by
    rw [SeqMap.get?_insert] at hget
    split at hget
    · next heq => exact Nat.le_of_eq heq
    · exact h.entry hget hk
  watermark hget := by
    have hne : watermarkIndex ≠ m.sequence := Nat.ne_of_lt hpos
    rw [SeqMap.get?_insert, if_neg hne] at hget
    exact h.watermark hget
  chronological := by
    refine h.chronological.insert htime fun w hw => ?_
    obtain ⟨hne, hwlt, octets', hget, hdecode⟩ := hw
    rw [SeqMap.get?_insert] at hget
    split at hget
    · -- Its octets are read back as the message that was written.
      cases hget
      have hwritten := Entry.decode_encode hencode hkept hlt []
      rw [List.append_nil, hdecode] at hwritten
      exact .inl (Except.ok.inj hwritten)
    · next hw =>
      exact .inr ⟨⟨hne, hwlt, octets', hget, hdecode⟩,
        Nat.lt_of_le_of_ne (h.entry hget hwlt) hw⟩

end IsDated

end Journal

/-! ## Steps of a log -/

section Steps

variable {journal : Option String} {ns : String} {x y : Index} {b b' : Backend}
  {ms : List StoredMessage} {now : Timestamp} {P : SeqMap Bytes → Prop}

theorem LogStep.gives (h : LogStep (some ns) x b ms y b') (hx : x.lastSeq < wordLimit)
    (htime : ∀ m ∈ ms, m.timestamp = now)
    (hb : b.store.Gives ns (Journal.IsDated now x.lastSeq)) :
    b'.store.Gives ns (Journal.IsDated now y.lastSeq) := by
  cases h with
  | @store _ _ m hnext hlt hkept h =>
    cases h with
    | @journaled _ octets _ _ reply hencode h =>
      have hlast : (x.commit m).lastSeq = m.sequence :=
        Nat.max_eq_right (hnext ▸ Nat.le_succ x.lastSeq)
      have hupto : b.store.Gives ns (Journal.IsDated now m.sequence) :=
        hb.mono fun log hlog => hlog.mono (hnext ▸ Nat.le_succ x.lastSeq) (Int.le_refl _)
      have hpos : 0 < m.sequence := hnext ▸ Nat.succ_pos _
      have hb' := Backend.gives_perform (.append ns [(m.sequence, octets)]) hupto fun _ =>
        ⟨LogCall.isInRange_append hlt, fun log hlog =>
          hlog.insert hpos hlt (htime m List.mem_cons_self) hkept hencode⟩
      rwa [h, ← hlast] at hb'
  | lose h =>
    rw [h.lastSeq_eq]
    refine (Backend.performs_performAll b fun _ hcall => hcall).gives hb fun call hcall _ => ?_
    have hremoving := Journal.removalCalls_isRemoving ns y _ call hcall
    rw [h.lastSeq_eq] at hremoving
    exact ⟨(Journal.removalCalls_inRange ns y _ call hcall).2, fun log hlog =>
      hlog.removing hx hremoving⟩
  | @fail _ _ entry e hjournal hlt h =>
    obtain rfl := Option.some.inj hjournal
    -- A call in range that fails does not come to a log.
    rcases b.store_perform_cases (.append ns [entry]) with hstore | ⟨hreply, hstore⟩
    · rwa [hstore]
    · rcases hb with hrefuses | ⟨log, hholds, hlog⟩
      · have hrefuses : b.store.Refuses (LogCall.append ns [entry]).ns := hrefuses
        rw [hstore, hrefuses.answer]
        exact .inl hrefuses
      · have hholds : b.store.Holds (LogCall.append ns [entry]).ns log := hholds
        rw [h, (hholds.answer (LogCall.isInRange_append hlt)).1] at hreply
        cases hreply

/-- **The steps of a log leave its journal in the order of time**, if the messages that they store
are of the present. -/
theorem LogRun.gives (h : LogRun (some ns) x b ms y b') (hx : x.lastSeq < wordLimit)
    (htime : ∀ m ∈ ms, m.timestamp = now)
    (hb : b.store.Gives ns (Journal.IsDated now x.lastSeq)) :
    b'.store.Gives ns (Journal.IsDated now y.lastSeq) := by
  induction h with
  | refl => exact hb
  | step run h ih =>
    rw [List.forall_mem_append] at htime
    exact h.gives (run.lastSeq_lt hx) htime.2 (ih htime.1)

/-- The steps of a log are nothing to other journals. -/
theorem LogRun.gives_of_ne (h : LogRun journal x b ms y b') (hne : journal ≠ some ns)
    (hb : b.store.Gives ns P) : b'.store.Gives ns P :=
  h.performs.gives hb fun _ hcall hns => absurd (hcall.trans (congrArg some hns)) hne

end Steps

/-! ## What is read back -/

section Reading

variable {ns : String} {b : Backend} {P : SeqMap Bytes → Prop}

/-- To read a journal back is to leave all of them as they are. -/
theorem Stream.gives_reread (h : b.store.Gives ns P) (settings : StreamSettings) :
    (reread settings b).2.store.Gives ns P := by
  rw [(performs_reread settings b).store_eq fun _ hcall => hcall.2]
  exact h

namespace Journal.Recovers

variable {log : SeqMap Bytes} {r : Recovered} {now : Timestamp} {n : Nat}

theorem restore_isDated (hr : Recovers log r) (h : IsDated now n log) :
    (Index.restore r.messages r.watermark).IsDated now := by
  refine h.chronological.of_subset (fun m hm => ?_) (Int.le_refl _)
  rw [(Index.filed_restore _ _).mem_toList_iff, hr.get?_restore_iff] at hm
  exact hm.1

/-- No entry of a log is above the last number that is read back. -/
theorem isDated (hr : Recovers log r) (h : IsDated now n log) :
    IsDated now (Index.restore r.messages r.watermark).lastSeq log where
  readable := h.readable
  entry {k octets} hget hlt := by
    by_cases hk : k = watermarkIndex
    · exact hk ▸ Nat.zero_le _
    · obtain ⟨m, rfl, hdecode⟩ := h.readable.message hget hk hlt
      refine (Index.le_lastSeq_restore_iff (Nat.pos_of_ne_zero hk)).2 (.inl ⟨m, ?_, Nat.le_refl _⟩)
      exact (hr.mem_iff m).2 ⟨hk, hlt, octets, hget, hdecode⟩
  watermark hget := by
    rcases hr.watermark with ⟨hnone, -⟩ | ⟨-, hsome⟩
    · rw [hnone] at hget
      cases hget
    · refine ⟨r.watermark, ?_, Option.some.inj (hget.symm.trans hsome)⟩
      rw [Index.lastSeq_restore]
      exact Nat.le_max_right _ _
  chronological := h.chronological

end Journal.Recovers

end Reading

/-! ## Streams -/

namespace Stream

variable {s s' : Stream} {now later : Timestamp} {n : Nat} {settings : StreamSettings} {x : Index}

/-- The messages of a stream come in the order of time, and so do those of its journal, which holds
none of a number that was not given. -/
structure IsDated (s : Stream) (now : Timestamp) (store : LogStore) : Prop where
  /-- What is kept beside the messages is right. -/
  sound : s.index.Sound
  /-- The last number has sixty-four bits. -/
  lastSeq_lt : s.index.lastSeq < wordLimit
  /-- The messages come in the order of time. -/
  dated : s.index.IsDated now
  /-- The messages of the journal do. -/
  journal : ∀ ns, s.journal? = some ns →
    store.Gives ns (Journal.IsDated now s.index.lastSeq)

theorem IsDated.of_le {store : LogStore} (h : s.IsDated now store)
    (hle : now.sinceEpoch ≤ later.sinceEpoch) : s.IsDated later store where
  sound := h.sound
  lastSeq_lt := h.lastSeq_lt
  dated := h.dated.of_le hle
  journal ns hns := (h.journal ns hns).mono fun _ hlog => hlog.mono (Nat.le_refl _) hle

end Stream

section Steps

variable {journal : Option String} {x y : Index} {b b' : Backend} {ms : List StoredMessage}
  {now : Timestamp}

theorem LogStep.isDated (h : LogStep journal x b ms y b') (hx : x.Sound)
    (htime : ∀ m ∈ ms, m.timestamp = now) (hdated : x.IsDated now) : y.IsDated now := by
  cases h with
  | store hnext hlt hkept h =>
    exact hdated.commit hx.filed (hnext ▸ Nat.lt_succ_self _) (htime _ List.mem_cons_self)
  | lose h => exact hdated.loses hx.filed h
  | fail hjournal hlt h => exact hdated

theorem LogRun.isDated (h : LogRun journal x b ms y b') (hx : x.Sound)
    (htime : ∀ m ∈ ms, m.timestamp = now) (hdated : x.IsDated now) : y.IsDated now := by
  induction h with
  | refl => exact hdated
  | step run h ih =>
    rw [List.forall_mem_append] at htime
    exact h.isDated (run.sound hx) htime.2 (ih htime.1)

end Steps

namespace Stream

variable {s s' : Stream} {b b' : Backend} {now : Timestamp} {n : Nat} {settings : StreamSettings}
  {x : Index} {ms : List StoredMessage} {ns : String}

/-- Steps from an index that is in the order of time lead to a stream that is. -/
theorem isDated_of_run (hx : x.Sound) (hlt : x.lastSeq < wordLimit) (hdated : x.IsDated now)
    (hb : ∀ ns, s.journal? = some ns → b.store.Gives ns (Journal.IsDated now x.lastSeq))
    (h : LogRun s.journal? x b ms s.index b') (htime : ∀ m ∈ ms, m.timestamp = now) :
    s.IsDated now b'.store where
  sound := h.sound hx
  lastSeq_lt := h.lastSeq_lt hlt
  dated := h.isDated hx htime hdated
  journal ns hns := by
    rw [hns] at h
    exact h.gives hlt htime (hb ns hns)

/-- **What happens to a stream leaves it in the order of time**, if the messages that come are of
the present. -/
theorem IsDated.moves (hs : s.IsDated now b.store) (h : s.Moves b ms s' b')
    (htime : ∀ m ∈ ms, m.timestamp = now) : s'.IsDated now b'.store := by
  have hrun := h.run
  rw [← h.journal] at hrun
  exact isDated_of_run hs.sound hs.lastSeq_lt hs.dated (fun ns hns =>
    hs.journal ns (h.journal ▸ hns)) hrun htime

/-- An index that is read back is in the order of time, and so is the journal up to its last
number. -/
theorem isDated_of_reread
    (hb : ∀ ns, settings.journal? = some ns → b.store.Gives ns (Journal.IsDated now n))
    (h : reread settings b = (.ok x, b')) : x.Sound ∧ x.IsDated now ∧
      ∀ ns, settings.journal? = some ns →
        b'.store.Gives ns (Journal.IsDated now x.lastSeq) := by
  cases hjournal : settings.journal? with
  | none =>
    rw [reread_unjournaled hjournal] at h
    cases h
    exact ⟨Index.empty_sound, Index.empty_isDated now, fun ns hns => by cases hns⟩
  | some ns =>
    rcases hb ns hjournal with hrefuses | ⟨log, hholds, hlog⟩
    · -- A journal that has no place cannot be read back.
      obtain ⟨reply, hreply⟩ := answers_of_reread hjournal h
      obtain ⟨e, he⟩ := hrefuses.readRange
      rw [he] at hreply
      cases hreply
    · have hkeeps : b.healed.Keeps ns log := ⟨rfl, hholds⟩
      obtain ⟨r, b₁, hr, -, hread⟩ := reread_spec hjournal hkeeps hlog.readable
      rw [reread_healed h] at hread
      split at hread
      · cases hread
      · cases hread
        refine ⟨hr.restore_sound, hr.restore_isDated hlog, fun other hother => ?_⟩
        cases hother
        have hgives := gives_reread (.inr ⟨log, hholds, hr.isDated hlog⟩) settings
        rwa [h] at hgives

/-- **A stream is opened in the order of time**, if its journal is. -/
theorem isDated_of_open? {id : Nat} {clock : Clock}
    (hb : ∀ ns, settings.journal? = some ns → b.store.Gives ns (Journal.IsDated now n))
    (h : open? id settings clock b = (.ok s, b')) : s.IsDated now b'.store := by
  obtain ⟨x, b₁, hread, rfl, hrun⟩ := moves_of_open? h
  obtain ⟨hx, hdated, hb₁⟩ := isDated_of_reread hb hread
  exact isDated_of_run hx (Nat.lt_of_succ_lt (lastSeq_of_reread hread)) hdated hb₁ hrun
    fun m hm => by cases hm

/-- Whether or not a stream comes to be opened, other journals are left alone. -/
theorem gives_of_open?_of_ne {P : SeqMap Bytes → Prop} {id : Nat} {clock : Clock}
    {reply : Except Error Stream} (hb : b.store.Gives ns P)
    (h : open? id settings clock b = (reply, b')) (hns : settings.journal? ≠ some ns) :
    b'.store.Gives ns P := by
  have hgives := gives_reread hb settings
  rcases open?_cases h with ⟨e, hread⟩ | ⟨x, b₁, hread, hrun⟩
  · rwa [hread] at hgives
  · rw [hread] at hgives
    exact hrun.gives_of_ne hns hgives

/-- Whether or not a stream comes to be opened, all journals stay in the order of time. -/
theorem gives_of_open? {id : Nat} {clock : Clock} {reply : Except Error Stream}
    (hb : b.store.Gives ns (Journal.IsDated now wordLimit))
    (h : open? id settings clock b = (reply, b')) :
    b'.store.Gives ns (Journal.IsDated now wordLimit) := by
  by_cases hns : settings.journal? = some ns
  · rcases open?_cases h with ⟨e, hread⟩ | ⟨x, b₁, hread, hrun⟩
    · have hgives := gives_reread hb settings
      rwa [hread] at hgives
    · have hlt := Nat.lt_of_succ_lt (lastSeq_of_reread hread)
      obtain ⟨-, -, hb₁⟩ := isDated_of_reread
        (fun other hother => Option.some.inj (hns.symm.trans hother) ▸ hb) hread
      rw [hns] at hrun
      have hgives := hrun.gives hlt (fun m hm => by cases hm) (hb₁ ns hns)
      exact hgives.mono fun log hlog =>
        hlog.mono (Nat.le_of_lt (hrun.lastSeq_lt hlt)) (Int.le_refl _)
  · exact gives_of_open?_of_ne hb h hns

end Stream

end StreamBroker
