import StreamBroker.Proofs.Journal.Mirror

/-!
# A restart is not seen

At the end of every operation of a life on a backend whose calls succeed, the journal of a stream
gives back the index that the stream has.  The one exception is a stream that has given the largest
number of sixty-four bits: its last entry is written, but not read again.

## Main results

* `Stream.Life.mirrors`: the journal mirrors the index throughout a life
* `Stream.Life.restart_unseen_iff`: what is read back is the index below the largest number, and
  only there
* `Stream.exists_life_lastSeq`: a life of publishes reaches every number, and so the exception
-/

namespace StreamBroker

namespace Stream

variable {ns : String} {b₀ b : Backend} {events : List StreamEvent} {s : Stream}
  {others : Backend → Backend → Prop}

/-- The journal mirrors the index throughout a life on a backend whose calls succeed, if what others
do leaves it alone. -/
theorem Life.mirrors (hothers : ∀ {b b'}, others b b' → Backend.Elsewhere ns b b')
    (hb₀ : b₀.Keeps ns SeqMap.empty) (life : Life others b₀ events s b)
    (hs : s.journal? = some ns) :
    s.index.Sound ∧ ∃ log, b.Keeps ns log ∧ Journal.Mirrors log s.index := by
  induction life with
  | opened hcheck hclock h =>
    obtain ⟨x, b₁, hread, rfl, hrun⟩ := moves_of_open? h
    -- Nothing was written yet, and an empty log mirrors the empty index.
    obtain ⟨hx, hb₁, hlog⟩ :=
      mirrors_of_reread hs hb₀ Journal.Mirrors.empty Index.empty_sound hread
    rw [← journal?, hs] at hrun
    exact hrun.mirrors hx hb₁ hlog
  | operated life hop hclock h hreply ih =>
    obtain ⟨ms, hmoves, -⟩ := StreamOp.moves_run hclock hop h hreply
    -- No operation moves the journal, so it was there before.
    have hjournal := hmoves.journal.symm.trans hs
    obtain ⟨hx, log, hb, hlog⟩ := ih hjournal
    have hrun := hmoves.run
    rw [hjournal] at hrun
    exact hrun.mirrors hx hb hlog
  | reopened life hfile hcheck hname hstorage hclock h ih =>
    obtain ⟨x, b₁, hread, rfl, hrun⟩ := moves_of_open? h
    have hjournal := journal?_of_reopened hfile hname hstorage
    obtain ⟨hx, log, hb, hlog⟩ := ih (hjournal.symm.trans hs)
    obtain ⟨hy, hb₁, hlog⟩ := mirrors_of_reread hs hb hlog hx hread
    rw [← journal?, hs] at hrun
    exact hrun.mirrors hy hb₁ hlog
  | elsewhere life h ih =>
    obtain ⟨hx, log, hb, hlog⟩ := ih hs
    exact ⟨hx, log, hothers h log hb, hlog⟩

/-! ## Every number is reached -/

section Reached

/-- A clock that shows the beginning of 1970. -/
def epochClock : Clock := ⟨0, 0⟩

/-- Settings without limits. -/
def plainSettings : StreamSettings := { name := "S" }

/-- A message for a stream with these settings. -/
def plainMessage : Message := ⟨"S", [], []⟩

/-- A backend in memory that nothing was written to. -/
def blankBackend : Backend := { store := .memory {} }

theorem blankBackend_keeps (ns : String) : blankBackend.Keeps ns SeqMap.empty := ⟨rfl, rfl⟩

/-- A stream with these settings has its journal to itself on the blank backend. -/
theorem keeps_plain (hs : s.settings = plainSettings) (ns : String) (hns : s.journal? = some ns) :
    blankBackend.Keeps ns SeqMap.empty ∧
      ∀ {b b'}, Backend.Elsewhere "stream_S" b b' → Backend.Elsewhere ns b b' := by
  rw [journal?, hs] at hns
  obtain rfl := Option.some.inj hns
  exact ⟨blankBackend_keeps _, fun h => h⟩

/-- The operation that publishes the message. -/
def plainPublish : StreamOp := .publish 0 {} plainMessage

theorem prepare_plain {x : Index} (hlt : x.lastSeq + 1 < wordLimit) :
    x.prepare plainSettings 0 epochClock.wall.toMicro {} plainMessage =
      .ok (plainMessage.stored (x.lastSeq + 1) epochClock.wall.toMicro) := by
  rw [Index.prepare]
  refine except_bind_eq_ok.2 ⟨(), rfl, ?_⟩
  refine except_bind_eq_ok.2 ⟨(), rfl, ?_⟩
  refine except_bind_eq_ok.2 ⟨(), rfl, ?_⟩
  rw [if_neg (Nat.not_le_of_lt hlt)]
  rfl

theorem write_plain {log : SeqMap Bytes} (hb : b.Keeps "stream_S" log)
    (hsettings : s.settings = plainSettings) {n : Nat} (hn : n < wordLimit) :
    ∃ octets b', s.write (plainMessage.stored n epochClock.wall.toMicro) b = (.ok (), b') ∧
      b'.Keeps "stream_S" (log.insert n octets) := by
  obtain ⟨octets, hencode⟩ : ∃ octets,
      Entry.encode (plainMessage.stored n epochClock.wall.toMicro) = .ok octets := ⟨_, rfl⟩
  have hfile : s.isJournaled = true := by rw [isJournaled, hsettings]; rfl
  have hjournal : s.journal = "stream_S" := by rw [journal, name, hsettings]; rfl
  have hperform := hb.perform (.append "stream_S" [(n, octets)]) (LogCall.isInRange_append hn)
  refine ⟨octets, (b.perform (.append "stream_S" [(n, octets)])).2, ?_, hperform.2⟩
  have hcall : Journal.appendCall "stream_S" (plainMessage.stored n epochClock.wall.toMicro) =
      .ok (.append "stream_S" [(n, octets)]) := except_bind_eq_ok.2 ⟨octets, hencode, rfl⟩
  simp only [write, hfile, if_true, hjournal, hcall, hperform.1]
  rfl

theorem accept_plain (hsettings : s.settings = plainSettings) (m : StoredMessage) :
    ∃ t, s.accept m = (.ok [], t) ∧ t.settings = plainSettings ∧ t.index = s.index.commit m := by
  obtain ⟨id, settings, created, x, consumers, former, events, takes⟩ := s
  obtain rfl : settings = plainSettings := hsettings
  -- The stream with the message in it has no limits either, so nothing goes for the message.
  obtain ⟨t, ht⟩ : ∃ t : Stream, t =
    ⟨id, plainSettings, created, x.commit m, consumers, former, events, takes⟩ := ⟨_, rfl⟩
  have hroom : t.makeRoom m t.index = ([], t.index) := by
    rw [ht]
    rfl
  refine ⟨t.announce m, ?_, ?_, ?_⟩
  · simp only [accept, ← ht, reduce_of_eq_nil hroom]
  · rw [settings_announce, ht]
  · rw [index_announce, ht]

/-- A stream without limits takes a message as long as there are numbers. -/
theorem run_plainPublish {log : SeqMap Bytes} (hb : b.Keeps "stream_S" log)
    (hsettings : s.settings = plainSettings) (hlt : s.index.lastSeq + 1 < wordLimit) :
    ∃ octets s' b', plainPublish.run epochClock s b =
        (.ok (.stored (s.index.lastSeq + 1)), s', b') ∧
      s'.settings = plainSettings ∧ s'.index.lastSeq = s.index.lastSeq + 1 ∧
      b'.Keeps "stream_S" (log.insert (s.index.lastSeq + 1) octets) := by
  -- Nothing is ever too old.
  have hevict : s.evict epochClock.wall.toMicro b = (.ok (), s, b) := by
    have hexpire : Retention.expire s.settings epochClock.wall.toMicro s.index =
        ([], s.index) := by
      rw [hsettings]
      rfl
    simp only [evict, reduceAll, reduce_of_eq_nil hexpire, forget_nil]
  obtain ⟨octets, b', hwrite, hb'⟩ := write_plain hb hsettings hlt
  obtain ⟨t, haccept, ht, hindex⟩ := accept_plain hsettings
    (plainMessage.stored (s.index.lastSeq + 1) epochClock.wall.toMicro)
  refine ⟨octets, t.notifyAll, t.forget [] b', ?_, ht, ?_, (forget_nil t b').symm ▸ hb'⟩
  · simp only [plainPublish, StreamOp.run, publish, publish.store, hevict, hsettings,
      prepare_plain hlt, storeMessage, hwrite, haccept]
    rfl
  · show t.index.lastSeq = s.index.lastSeq + 1
    rw [hindex]
    exact Nat.max_eq_right (Nat.le_succ _)

/-- A life of publishes reaches every number, and leaves no watermark. -/
theorem exists_life_lastSeq {n : Nat} (hn : n < wordLimit) :
    ∃ events s b log, Life (Backend.Elsewhere "stream_S") blankBackend events s b ∧
      s.settings = plainSettings ∧ s.index.lastSeq = n ∧ b.Keeps "stream_S" log ∧
      log.get? Journal.watermarkIndex = none := by
  have hclock : epochClock.IsDated := rfl
  induction n with
  | zero =>
    obtain ⟨s, b, hopen, hsettings, hlast, hb⟩ : ∃ s b,
        open? 0 plainSettings epochClock blankBackend = (.ok s, b) ∧
          s.settings = plainSettings ∧ s.index.lastSeq = 0 ∧
          b.Keeps "stream_S" SeqMap.empty := ⟨_, _, rfl, rfl, rfl, rfl, rfl⟩
    exact ⟨_, s, b, _, .opened rfl hclock hopen, hsettings, hlast, hb, rfl⟩
  | succ n ih =>
    obtain ⟨events, s, b, log, life, hsettings, rfl, hb, hnone⟩ := ih (Nat.lt_of_succ_lt hn)
    have hproper : plainPublish.IsProper s := trivial
    obtain ⟨octets, s', b', hrun, hs', hlast, hb'⟩ := run_plainPublish hb hsettings hn
    refine ⟨_, s', b', _, life.operated hproper hclock hrun (by simp), hs', hlast, hb', ?_⟩
    -- A message is not written at the place of the watermark.
    have hne : Journal.watermarkIndex ≠ s.index.lastSeq + 1 := (Nat.succ_ne_zero _).symm
    rw [SeqMap.get?_insert, if_neg hne, hnone]

end Reached

/-! ## Restarts -/

/-- **A restart is not seen below the largest number, and only there**: at the end of every
operation of a life on a backend whose calls succeed, what the journal gives back has the same
messages, bounds, size and numbers of every subject as the index, exactly if the number behind the
last one exists. -/
theorem Life.restart_unseen_iff (hb₀ : b₀.Keeps ns SeqMap.empty)
    (life : Life (Backend.Elsewhere ns) b₀ events s b) (hs : s.journal? = some ns) :
    (∃ x b', reread s.settings b = (.ok x, b') ∧ x.Agrees s.index) ↔
      s.index.lastSeq + 1 < wordLimit := by
  obtain ⟨hx, log, hb, hlog⟩ := life.mirrors (fun h => h) hb₀ hs
  exact Stream.reread_agrees_iff hs hb hlog hx

/-- A life that reaches the largest number is not given back. -/
theorem restart_seen_at_largest :
    ∃ events s b, Life (Backend.Elsewhere "stream_S") blankBackend events s b ∧
      s.index.lastSeq + 1 = wordLimit ∧
      ¬∃ x b', reread s.settings b = (.ok x, b') ∧ x.Agrees s.index := by
  obtain ⟨events, s, b, -, life, hsettings, hlast, -⟩ :=
    exists_life_lastSeq (n := wordLimit - 1) (by decide)
  have hjournal : s.journal? = some "stream_S" := by rw [journal?, hsettings]; rfl
  refine ⟨events, s, b, life, by rw [hlast]; rfl, ?_⟩
  intro hagrees
  have hlt := (Life.restart_unseen_iff (blankBackend_keeps _) life hjournal).1 hagrees
  rw [hlast] at hlt
  exact absurd hlt (by decide)

end Stream

end StreamBroker
