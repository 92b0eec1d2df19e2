import StreamBroker.Proofs.Journal.Mirror

/-!
# Journals on backends that fail

A call that is made to fail does not reach the store, so behind a backend with scheduled failures
the store holds a log all the same, and every call has its effect on it or none.  Whatever becomes
of the calls of a stream, its journal stays legible: every entry is one of its number.  What a
legible journal gives back is sound.  It need not be the index of the stream, as a message that
could not be deleted comes back.

## Main definitions

* `Backend.healed`: a backend without its scheduled failures
* `Journal.IsEntry`, `LogCall.WritesEntries`: what a stream writes to its journal
* `Backend.Legible`: the store behind a backend holds a journal that can be read
* `Backend.IsLegible`: every journal can be read that can be asked about
* `Backend.Disturbance`: what happens to a backend besides the operations of a stream

## Main results

* `Backend.Legible.perform`: calls leave a journal legible, whether they fail or not
* `LogRun.legible`: so do the steps of a log
* `Stream.sound_of_reread`: what a legible journal gives back is sound
-/

namespace StreamBroker

/-! ## Calls that fail -/

namespace Backend

variable {b b' : Backend} {call : LogCall} {reply : LogReply}

/-- A backend without its scheduled failures. -/
def healed (b : Backend) : Backend := { b with faults := [] }

/-- A call fails and changes nothing in the store, or the store answers it. -/
theorem perform_cases (b : Backend) (call : LogCall) :
    (∃ e, (b.perform call).1 = .error e ∧ (b.perform call).2.store = b.store) ∨
      (b.perform call).1 = (b.store.answer call).1 ∧
        (b.perform call).2.healed = (b.healed.perform call).2 := by
  cases h : Fault.trigger call.kind b.faults with
  | mk failure faults =>
    cases failure with
    | some error => exact .inl ⟨error, by simp only [perform, h], by simp only [perform, h]⟩
    | none =>
      refine .inr ⟨by simp only [perform, h], ?_⟩
      rw [perform_of_faults_eq (b := b.healed) rfl]
      simp only [perform, h, healed]

/-- A call that succeeds would have succeeded without failures as well. -/
theorem perform_healed (h : b.perform call = (.ok reply, b')) :
    b.healed.perform call = (.ok reply, b'.healed) := by
  rcases perform_cases b call with ⟨e, herror, -⟩ | ⟨hreply, hb'⟩
  · rw [h] at herror
    cases herror
  · rw [h] at hreply hb'
    refine Prod.ext ?_ hb'.symm
    rw [perform_of_faults_eq (b := b.healed) rfl]
    exact hreply.symm

/-- What is made of a reply is the same as well. -/
theorem map_perform_healed {α : Type} {f : LogReply → α} {a : α}
    (h : ((b.perform call).1.map f, (b.perform call).2) = (.ok a, b')) :
    ((b.healed.perform call).1.map f, (b.healed.perform call).2) = (.ok a, b'.healed) := by
  obtain ⟨hreply, rfl⟩ := Prod.mk.inj h
  obtain ⟨reply, hok, rfl⟩ := except_map_eq_ok.1 hreply
  rw [perform_healed (Prod.ext hok rfl)]
  rfl

theorem bounds_healed {ns : String} {bounds : Option (Nat × Nat)}
    (h : b.bounds ns = (.ok bounds, b')) : b.healed.bounds ns = (.ok bounds, b'.healed) :=
  map_perform_healed h

theorem readRange_healed {ns : String} {start stop : Nat} {entries : List (Nat × Bytes)}
    (h : b.readRange ns start stop = (.ok entries, b')) :
    b.healed.readRange ns start stop = (.ok entries, b'.healed) :=
  map_perform_healed h

end Backend

/-! ## What is written -/

/-- An entry of a journal is a message under its number, or the watermark. -/
def Journal.IsEntry (e : Nat × Bytes) : Prop :=
  if e.1 = watermarkIndex then ∃ w, w < wordLimit ∧ e.2 = encodeWatermark w
  else ∃ m, m.sequence = e.1 ∧ Entry.decode e.2 = .ok m

/-- What a call writes are entries of a journal. -/
def LogCall.WritesEntries : LogCall → Prop
  | append _ es => ∀ e ∈ es, e.1 < wordLimit ∧ Journal.IsEntry e
  | _ => True

theorem LogCall.WritesEntries.inRange {call : LogCall} (h : call.WritesEntries) :
    call.IsInRange := by
  cases call with
  | append ns es => exact fun e he => (h e he).1
  | _ => trivial

namespace Journal

variable {log : SeqMap Bytes}

theorem Readable.isEntry (h : Readable log) {n : Nat} {octets : Bytes}
    (hget : log.get? n = some octets) (hlt : n < lastIndex) : IsEntry (n, octets) := by
  rw [IsEntry]
  split
  · next hn => exact h.watermark (hn ▸ hget)
  · next hn => exact h.message hget hn hlt

/-- A log is readable if all that is read of it are entries. -/
theorem readable_of_isEntry
    (h : ∀ {n octets}, log.get? n = some octets → n < lastIndex → IsEntry (n, octets)) :
    Readable log where
  message hget hne hlt := by
    have hentry := h hget hlt
    rwa [IsEntry, if_neg hne] at hentry
  watermark hget := by
    have hentry := h hget (by decide)
    rwa [IsEntry, if_pos rfl] at hentry

/-- A log with fewer entries is as readable. -/
theorem Readable.of_get? {log' : SeqMap Bytes} (h : Readable log)
    (hget : ∀ {n octets}, log'.get? n = some octets → log.get? n = some octets) :
    Readable log' := readable_of_isEntry fun hn hlt => h.isEntry (hget hn) hlt

theorem Readable.insert (h : Readable log) {e : Nat × Bytes} (he : IsEntry e) :
    Readable (log.insert e.1 e.2) := by
  refine readable_of_isEntry fun {n octets} hget hlt => ?_
  rw [SeqMap.get?_insert] at hget
  split at hget
  · next hn =>
    cases hget
    exact hn ▸ he
  · exact h.isEntry hget hlt

/-- The effect of a call that writes entries leaves a log readable. -/
theorem Readable.effect (h : Readable log) {call : LogCall} (hcall : call.WritesEntries) :
    Readable (call.effect log).2 := by
  cases call with
  | append ns es =>
    show Readable (es.foldl (fun m e => m.insert e.1 e.2) log)
    -- Entries are written one by one, each readable.
    induction es generalizing log with
    | nil => exact h
    | cons e es ih =>
      exact ih (h.insert (hcall e List.mem_cons_self).2) fun d hd =>
        hcall d (List.mem_cons_of_mem e hd)
  | bounds ns => exact h
  | readRange ns start stop => exact h
  | compactBefore ns index =>
    refine h.of_get? fun hget => ?_
    rw [LogCall.effect, SeqMap.get?_startingAt] at hget
    split at hget
    · exact hget
    · cases hget
  | removeNamespace ns => exact h.of_get? fun hget => by cases hget
  | deleteEntry ns index =>
    refine h.of_get? fun hget => ?_
    rw [LogCall.effect, SeqMap.get?_erase] at hget
    split at hget
    · cases hget
    · exact hget

/-- A message is written as an entry. -/
theorem isEntry_of_encode {m : StoredMessage} {octets : Bytes} (hne : m.sequence ≠ watermarkIndex)
    (hlt : m.sequence < wordLimit) (htime : m.timestamp.IsKept)
    (hencode : Entry.encode m = .ok octets) : IsEntry (m.sequence, octets) := by
  have hdecode := Entry.decode_encode hencode htime hlt []
  rw [List.append_nil] at hdecode
  rw [IsEntry, if_neg hne]
  exact ⟨m, rfl, hdecode⟩

/-- The calls of a removal write a watermark, if they write anything. -/
theorem removalCalls_writesEntries (ns : String) {x : Index} (hlt : x.lastSeq < wordLimit)
    (gone : List Nat) : ∀ call ∈ removalCalls ns x gone, call.ns = ns ∧ call.WritesEntries := by
  intro call hcall
  refine ⟨(removalCalls_inRange ns x gone call hcall).1, ?_⟩
  rw [removalCalls_eq, List.mem_append, List.mem_append, compaction, marking, deletions] at hcall
  rcases hcall with hcall | hcall | hcall
  · split at hcall
    · obtain rfl := List.mem_singleton.1 hcall
      trivial
    · cases hcall
  · split at hcall
    · obtain rfl := List.mem_singleton.1 hcall
      intro e he
      obtain rfl := List.mem_singleton.1 he
      exact ⟨(by decide : watermarkIndex < wordLimit), x.lastSeq, hlt, rfl⟩
    · cases hcall
  · obtain ⟨n, -, rfl⟩ := List.mem_map.1 hcall
    trivial

end Journal

/-! ## Legible journals -/

namespace Backend

variable {b b' : Backend} {journal : Option String} {ns : String}

/-- The store behind a backend holds a journal that can be read, if there is a journal. -/
def Legible (b : Backend) (journal : Option String) : Prop :=
  ∀ ns, journal = some ns → ∃ log, b.store.Holds ns log ∧ Journal.Readable log

theorem Legible.of_store_eq (hb : b.Legible journal) (h : b'.store = b.store) :
    b'.Legible journal := by
  intro ns hns
  rw [h]
  exact hb ns hns

/-- A call of a stream leaves its journal legible, whether it fails or not. -/
theorem Legible.perform {call : LogCall} (hb : b.Legible (some call.ns))
    (hcall : call.WritesEntries) : (b.perform call).2.Legible (some call.ns) := by
  rcases b.perform_cases call with ⟨e, -, hstore⟩ | ⟨-, hhealed⟩
  · exact hb.of_store_eq hstore
  · intro ns hns
    cases hns
    obtain ⟨log, hholds, hlog⟩ := hb _ rfl
    have hkeeps := (Keeps.perform call (b := b.healed) ⟨rfl, hholds⟩ hcall.inRange).2
    rw [← hhealed] at hkeeps
    exact ⟨_, hkeeps.holds, hlog.effect hcall⟩

theorem Legible.performAll (hb : b.Legible (some ns)) {calls : List LogCall}
    (hcalls : ∀ call ∈ calls, call.ns = ns ∧ call.WritesEntries) :
    (b.performAll calls).2.Legible (some ns) := by
  induction calls generalizing b with
  | nil => exact hb
  | cons call calls ih =>
    obtain ⟨rfl, hcall⟩ := hcalls call List.mem_cons_self
    have hb' := hb.perform hcall
    rw [Backend.performAll]
    split
    · next heq =>
      rw [heq] at hb'
      exact ih hb' fun c hc => hcalls c (List.mem_cons_of_mem call hc)
    · next heq => rwa [heq] at hb'

/-- A call that was in range and failed was made to fail. -/
theorem Legible.store_eq_of_error (hb : b.Legible (some ns)) {call : LogCall} (hns : call.ns = ns)
    (hrange : call.IsInRange) {e : StorageError} (h : (b.perform call).1 = .error e) :
    (b.perform call).2.store = b.store := by
  rcases b.perform_cases call with ⟨-, -, hstore⟩ | ⟨hreply, -⟩
  · exact hstore
  · subst hns
    obtain ⟨log, hholds, -⟩ := hb _ rfl
    rw [(hholds.answer hrange).1, h] at hreply
    cases hreply

/-- What happens to a backend besides the operations of a stream: others make calls, a broker ends
when it has made a part of its calls, and calls are made to fail. -/
inductive Disturbance (ns : String) (b : Backend) : Backend → Prop where
  | called {call : LogCall} (h : call.ns = ns → call.WritesEntries) :
      Disturbance ns b (b.perform call).2
  | failing (faults : List Fault) : Disturbance ns b { b with faults }

theorem Disturbance.legible (h : Disturbance ns b b') (hb : b.Legible (some ns)) :
    b'.Legible (some ns) := by
  cases h with
  | @called call hcall =>
    by_cases hns : call.ns = ns
    · subst hns
      exact hb.perform (hcall rfl)
    · rcases b.perform_cases call with ⟨e, -, hstore⟩ | ⟨-, hhealed⟩
      · exact hb.of_store_eq hstore
      · intro other hother
        cases hother
        -- The journal of another stream is somewhere else.
        obtain ⟨log, hholds, hlog⟩ := hb ns rfl
        have hkept := elsewhere_perform b.healed (Ne.symm hns) log ⟨rfl, hholds⟩
        rw [← hhealed] at hkept
        exact ⟨log, hkept.holds, hlog⟩
  | failing faults => exact hb.of_store_eq rfl

end Backend

section Steps

variable {journal : Option String} {x y : Index} {b b' : Backend} {ms : List StoredMessage}

theorem LogStep.legible (h : LogStep journal x b ms y b') (hx : x.lastSeq < wordLimit)
    (hb : b.Legible journal) : b'.Legible journal := by
  cases h with
  | @store _ _ m hnext hlt htime h =>
    cases h with
    | unjournaled => exact hb
    | @journaled ns octets _ _ reply hencode h =>
      -- Number zero is that of the watermark, and no message is written there.
      have hne : m.sequence ≠ Journal.watermarkIndex := hnext ▸ Nat.succ_ne_zero _
      have hentry : (LogCall.append ns [(m.sequence, octets)]).WritesEntries := fun e he => by
        rw [List.mem_singleton.1 he]
        exact ⟨hlt, Journal.isEntry_of_encode hne hlt htime hencode⟩
      have hb' := hb.perform hentry
      rwa [h] at hb'
  | lose h =>
    cases journal with
    | none => exact hb
    | some ns =>
      exact hb.performAll (Journal.removalCalls_writesEntries ns (h.lastSeq_eq ▸ hx) _)
  | fail hjournal hlt h =>
    subst hjournal
    exact hb.of_store_eq (hb.store_eq_of_error rfl (LogCall.isInRange_append hlt) h)

/-- The steps of a log leave its journal legible. -/
theorem LogRun.legible (h : LogRun journal x b ms y b') (hx : x.lastSeq < wordLimit)
    (hb : b.Legible journal) : b'.Legible journal := by
  induction h with
  | refl => exact hb
  | step run h ih => exact h.legible (run.lastSeq_lt hx) ih

end Steps

/-! ## What a legible journal gives back -/

namespace Journal

variable {ns : String} {b b' : Backend}

theorem recoverMessages_healed {w : Nat} {r : Recovered}
    (h : recoverMessages ns w b = (.ok r, b')) :
    recoverMessages ns w b.healed = (.ok r, b'.healed) := by
  rw [recoverMessages] at h
  split at h
  · cases h
  · next b₁ hbounds =>
    cases h
    rw [recoverMessages, Backend.bounds_healed hbounds]
  · next first last b₁ hbounds =>
    split at h
    · cases h
    · next entries b₂ hread =>
      obtain ⟨hms, rfl⟩ := Prod.mk.inj h
      rw [recoverMessages, Backend.bounds_healed hbounds]
      simp only [Backend.readRange_healed hread, hms]

/-- What can be recovered in spite of failures can be recovered without them. -/
theorem recover_healed {r : Recovered} (h : recover ns b = (.ok r, b')) :
    recover ns b.healed = (.ok r, b'.healed) := by
  rw [recover] at h
  split at h
  · cases h
  · next entries b₁ hread =>
    split at h
    · cases h
    · next w hw =>
      rw [recover, Backend.readRange_healed hread]
      simp only [hw, recoverMessages_healed h]

end Journal

namespace Stream

variable {settings : StreamSettings} {b b' : Backend} {x : Index}

/-- What can be read back in spite of failures can be read back without them. -/
theorem reread_healed (h : reread settings b = (.ok x, b')) :
    reread settings b.healed = (.ok x, b'.healed) := by
  rw [reread] at h
  split at h
  · cases h
  · next r b₁ hrecovered =>
    have hhealed : recovered settings b.healed = (.ok r, b₁.healed) := by
      rw [recovered] at hrecovered ⊢
      split at hrecovered
      · exact Journal.recover_healed hrecovered
      · cases hrecovered
        rfl
    simp only [reread, hhealed]
    dsimp only at h
    split at h
    · cases h
    · next hlt =>
      cases h
      rw [if_neg hlt]

/-- **What a legible journal gives back is sound**, and the journal stays legible. -/
theorem sound_of_reread (hb : b.Legible settings.journal?)
    (h : reread settings b = (.ok x, b')) : x.Sound ∧ b'.Legible settings.journal? := by
  cases hjournal : settings.journal? with
  | none =>
    rw [reread_unjournaled hjournal] at h
    cases h
    exact ⟨Index.empty_sound, fun ns hns => by cases hns⟩
  | some ns =>
    rw [hjournal] at hb
    obtain ⟨log, hholds, hlog⟩ := hb ns rfl
    have hkeeps : b.healed.Keeps ns log := ⟨rfl, hholds⟩
    obtain ⟨r, b₁, hr, hkept, hread⟩ := reread_spec hjournal hkeeps hlog
    rw [reread_healed h] at hread
    split at hread
    · cases hread
    · cases hread
      refine ⟨hr.restore_sound, fun other hother => ?_⟩
      cases hother
      exact ⟨log, hkept.holds, hlog⟩

end Stream

/-! ## Journals that can be asked about -/

/-- The first question about a journal, which is the one for the watermark, is answered. -/
def Backend.Answers (b : Backend) (ns : String) : Prop :=
  ∃ reply, (b.store.answer
    (.readRange ns Journal.watermarkIndex (Journal.watermarkIndex + 1))).1 = .ok reply

/-- Every journal can be read that can be asked about. -/
def Backend.IsLegible (b : Backend) : Prop := ∀ ns, b.Answers ns → b.Legible (some ns)

/-- Nothing is kept in a store in memory. -/
def LogStore.isBlank : LogStore → Bool
  | memory s => s.logs.isEmpty
  | directory _ => false

theorem Backend.isLegible_of_isBlank {b : Backend} (h : b.store.isBlank = true) : b.IsLegible := by
  intro ns _ ns' _
  cases hstore : b.store with
  | memory s =>
    rw [hstore, LogStore.isBlank, List.isEmpty_iff] at h
    refine ⟨SeqMap.empty, ?_, Journal.Mirrors.empty.readable Index.empty_sound⟩
    show s.log ns' = SeqMap.empty
    rw [MemoryStore.log, h]
    rfl
  | directory s =>
    rw [hstore] at h
    cases h

theorem Journal.answers_of_recover {ns : String} {b b' : Backend} {r : Recovered}
    (h : recover ns b = (.ok r, b')) : b.Answers ns := by
  rw [recover] at h
  split at h
  · cases h
  · next entries b₁ hread =>
    have hreply : (b.perform (.readRange ns watermarkIndex (watermarkIndex + 1))).1.map
        LogReply.entryList = .ok entries := congrArg Prod.fst hread
    obtain ⟨reply, hok, -⟩ := except_map_eq_ok.1 hreply
    rcases b.perform_cases (.readRange ns watermarkIndex (watermarkIndex + 1)) with
      ⟨e, herror, -⟩ | ⟨hanswer, -⟩
    · rw [herror] at hok
      cases hok
    · exact ⟨reply, hanswer ▸ hok⟩

/-- What is read back could be asked about. -/
theorem Stream.answers_of_reread {settings : StreamSettings} {b b' : Backend} {x : Index}
    {ns : String} (hns : settings.journal? = some ns) (h : reread settings b = (.ok x, b')) :
    b.Answers ns := by
  obtain ⟨hfile, rfl⟩ := StreamSettings.journal?_eq_some_iff.1 hns
  rw [reread] at h
  split at h
  · cases h
  · next r b₁ hrecovered =>
    rw [recovered, hfile] at hrecovered
    exact Journal.answers_of_recover hrecovered

/-- What a stream is opened from could be asked about. -/
theorem Stream.legible_of_reread {settings : StreamSettings} {b b' : Backend} {x : Index}
    (hb : b.IsLegible) (h : reread settings b = (.ok x, b')) : b.Legible settings.journal? :=
  fun ns hns => hb ns (answers_of_reread hns h) ns rfl

end StreamBroker
