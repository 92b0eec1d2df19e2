import StreamBroker.Proofs.Stream.Claims
import StreamBroker.Proofs.Stream.Moves

/-!
# What is taken from a stream that keeps what is needed

Messages go from such a stream although they are needed when they are deleted, when they are too old
and when there is too much.  The operations on its log take nothing else, and leave nothing behind
that is not needed.

## Main definitions

* `Stream.PublishTakes`: the messages that a publish takes

## Main results

* `Stream.claimed_publish`: a publish takes what is too old and what exceeds the limits
* `Stream.claimed_evict`, `Stream.claimed_purge`, …: so do the other operations on the log
-/

namespace StreamBroker

namespace Stream

variable {s s' t : Stream} {b b' : Backend}

/-! ## Removals -/

/-- Messages go, and the cursors stay as they are. -/
theorem claimed_of_loses (hs : s.Claimed) {gone : List Nat} (h : s.index.Loses gone t.index)
    (hcursors : t.cursors = s.cursors)
    (hretention : t.settings.retention = s.settings.retention) :
    t.Claimed ∧ s.Spares (· ∈ gone) t :=
  ⟨hs.lose h hcursors hretention, spares_of_loses h⟩

theorem claimed_evict (hs : s.Claimed) {now : Timestamp} {reply : Except Error Unit}
    (h : s.evict now b = (reply, s', b')) (hreply : reply ≠ .error .numbersExhausted) :
    s'.Claimed ∧ s.Spares (· ∈ (Retention.expire s.settings now s.index).1) s' := by
  rcases evict_cases h with ⟨rfl, -⟩ | ⟨-, rfl, -⟩
  · exact absurd rfl hreply
  · exact claimed_of_loses hs (Retention.loses_expire s.settings now s.index) rfl rfl

theorem claimed_deleteMessage (hs : s.Claimed) {n : Nat} {reply : Except Error Unit}
    (h : s.deleteMessage n b = (reply, s', b')) (hreply : reply ≠ .error .numbersExhausted) :
    s'.Claimed ∧ s.Spares (· = n) s' := by
  rcases deleteMessage_cases h with ⟨rfl, -⟩ | ⟨rfl, -⟩ | ⟨rfl, -⟩
  · exact ⟨hs, .refl s' _⟩
  · exact absurd rfl hreply
  · obtain ⟨hclaimed, hspares⟩ :=
      claimed_of_loses (t := { s with index := (s.index.removeAll [n]).2 }) hs
        (Index.loses_removeAll s.index [n]) rfl rfl
    refine ⟨hclaimed, hspares.mono ?_⟩
    intro k hk
    exact List.mem_singleton.1 ((Index.mem_removeAll_iff s.index [n] k).1 hk).1

theorem claimed_purge (hs : s.Claimed) {r : PurgeRequest} {reply : Except Error Nat}
    (h : s.purge r b = (reply, s', b')) (hreply : reply ≠ .error .numbersExhausted) :
    s'.Claimed ∧ s.Spares (· ∈ s.index.purgeSelection r) s' := by
  rcases purge_cases h with ⟨rfl, -⟩ | ⟨rfl, -⟩ | ⟨left, t, hleft, ht, hs', -⟩
  · exact ⟨hs, .refl s' _⟩
  · exact absurd rfl hreply
  · -- Whether the calls for the journal succeed makes no difference to what went.
    have hpurged {u : Stream} (hindex : u.index = left.2) (hcursors : u.cursors = s.cursors)
        (hretention : u.settings.retention = s.settings.retention) :
        u.Claimed ∧ s.Spares (· ∈ s.index.purgeSelection r) u := by
      have hloses := Index.loses_purge hleft
      rw [← hindex] at hloses
      obtain ⟨hclaimed, hspares⟩ := claimed_of_loses hs hloses hcursors hretention
      exact ⟨hclaimed, hspares.mono fun k hk => Index.mem_purgeSelection hleft hk⟩
    subst ht
    rcases hs' with rfl | rfl
    · exact hpurged rfl rfl rfl
    · exact hpurged rfl (cursors_notifyAll _) rfl

theorem claimed_changeSettings (hs : s.Claimed) {settings : StreamSettings} {clock : Clock}
    {reply : Except Error Unit} (hfixed : Broker.checkFixed s.settings settings = .ok ())
    (h : s.changeSettings settings clock b = (reply, s', b'))
    (hreply : reply ≠ .error .numbersExhausted) :
    s'.Claimed ∧ s.Spares (· ∈ (trim settings clock.wall s.index).1) s' := by
  rcases changeSettings_cases h with ⟨rfl, -⟩ | ⟨t, rfl, rfl, -⟩
  · exact absurd rfl hreply
  · exact claimed_of_loses hs (loses_trim settings clock.wall s.index) (cursors_notifyAll _)
      (checkFixed_eq_ok hfixed).2

/-! ## Publishing -/

/-- The messages that go because there is too much with a new one. -/
def exceeding (s : Stream) (m : StoredMessage) : List Nat :=
  (Retention.enforceLimits s.settings (some m.subject) (s.index.commit m)).1

/-- The messages that a publish takes: what is too old, and then what exceeds the limits. -/
def PublishTakes (s : Stream) (now : Timestamp) (m : Message) (n : Nat) : Prop :=
  let (expired, index) := Retention.expire s.settings now s.index
  n ∈ expired ∨ n ∈ exceeding { s with index } (m.stored (index.lastSeq + 1) now)

theorem makeRoom_snd (h : s.settings.retention = .interest) (m : StoredMessage) (x : Index) :
    (s.makeRoom m x).2 = (s.releasing [m.sequence]
      (Retention.enforceLimits s.settings (some m.subject) x).2).2 := by
  simp only [makeRoom, if_pos h]

/-- A message that is accepted takes what exceeds the limits, and goes itself if nobody needs it. -/
theorem claimed_accept (hs : s.Claimed) {m : StoredMessage}
    (hnext : m.sequence = s.index.lastSeq + 1)
    (hindex : t.index = (s.makeRoom m (s.index.commit m)).2) (hcursors : t.cursors = s.cursors)
    (hretention : t.settings.retention = s.settings.retention) :
    t.Claimed ∧ Spares { s with index := s.index.commit m } (· ∈ s.exceeding m) t := by
  rw [makeRoom_snd hs.retention] at hindex
  have hlimits := Retention.loses_enforceLimits s.settings (some m.subject) (s.index.commit m)
  have hlimited : Orderly { s with
      index := (Retention.enforceLimits s.settings (some m.subject) (s.index.commit m)).2 } :=
    (hs.toOrderly.commit hnext).lose hlimits rfl rfl
  -- Everything is needed but perhaps the message itself.
  have hneeded {n : Nat} {w : StoredMessage} (hw : (s.index.commit m).get? n = some w) :
      s.isNeeded n w.subject = true ∨ n ∈ [m.sequence] := by
    rw [Index.get?_commit] at hw
    split at hw
    · next hn => exact .inr (List.mem_singleton.2 hn)
    · exact .inl (hs.needed hw)
  obtain ⟨hclaimed, hspares⟩ := hlimited.release (fun hw => hneeded (hlimits.get?_of_get? hw))
    hindex hcursors hretention
  refine ⟨hclaimed, ?_⟩
  intro n w hw hn hu
  apply Decidable.byContradiction
  intro hmem
  exact hspares n w ((hlimits.get?_of_not_mem hmem).trans hw) hn hu

/-- What was there is there with a message of the next number. -/
theorem Spares.of_commit (hx : s.index.Keyed) {m : StoredMessage} {taken : Nat → Prop}
    (hnext : m.sequence = s.index.lastSeq + 1)
    (h : Spares { s with index := s.index.commit m } taken s') : s.Spares taken s' := by
  intro n w hw hn hu
  refine h n w ?_ hn hu
  have hle := hx.le_lastSeq hw
  -- A number that was given before is not the next one.
  have hne : n ≠ m.sequence := by omega
  exact (Index.get?_commit s.index m n).trans ((if_neg hne).trans hw)

theorem claimed_storeMessage (hs : s.Claimed) {m : StoredMessage} {reply : Except Error Nat}
    (hnext : m.sequence = s.index.lastSeq + 1) (h : s.storeMessage m b = (reply, s', b'))
    (hreply : reply ≠ .error .numbersExhausted) :
    s'.Claimed ∧ s.Spares (· ∈ s.exceeding m) s' ∧ ∀ n, reply = .ok n → n = m.sequence ∧
      Spares { s with index := s.index.commit m } (· ∈ s.exceeding m) s' := by
  rcases storeMessage_cases h with ⟨e, -, rfl, rfl⟩ | ⟨b₁, -, ⟨rfl, -⟩ | ⟨t, rfl, rfl, rfl, -⟩⟩
  · refine ⟨hs, .refl s' _, ?_⟩
    intro n hn
    cases hn
  · exact absurd rfl hreply
  · obtain ⟨hclaimed, hspares⟩ := claimed_accept
      (t := (announce { s with index := (s.makeRoom m (s.index.commit m)).2 } m).notifyAll)
      hs hnext (index_announce _ m) ((cursors_notifyAll _).trans (cursors_announce _ m))
      (congrArg StreamSettings.retention (settings_announce _ m))
    refine ⟨hclaimed, hspares.of_commit hs.keyed hnext, ?_⟩
    intro n hn
    cases hn
    exact ⟨rfl, hspares⟩

/-- A publish takes what is too old and what exceeds the limits, and the message that it stores is
there as long as it is needed. -/
theorem claimed_publish (hs : s.Claimed) {maxPayload : Nat} {clock : Clock} {e : Expectations}
    {m : Message} {reply : Except Error Nat}
    (h : s.publish maxPayload clock e m b = (reply, s', b'))
    (hreply : reply ≠ .error .numbersExhausted) :
    s'.Claimed ∧ s.Spares (s.PublishTakes clock.wall.toMicro m) s' ∧ ∀ n, reply = .ok n →
      s'.index.get? n = none → s'.isNeeded n m.subject = true →
        s.PublishTakes clock.wall.toMicro m n := by
  rcases publish_cases h with ⟨⟨error, rfl⟩, rfl, -⟩ | ⟨rfl, -⟩ | ⟨t, b₁, hevict, hrest⟩
  · refine ⟨hs, .refl s' _, ?_⟩
    intro n hn
    cases hn
  · exact absurd rfl hreply
  · obtain ⟨hclaimed, hspares⟩ := claimed_evict hs hevict (by simp)
    rcases hrest with ⟨⟨error, rfl⟩, rfl, -⟩ | ⟨-, -, hstore⟩
    · -- A message that is refused takes nothing itself.
      refine ⟨hclaimed, hspares.mono fun n => .inl, ?_⟩
      intro n hn
      cases hn
    · have hexpired := Retention.loses_expire s.settings clock.wall.toMicro s.index
      rcases evict_cases hevict with ⟨hok, -⟩ | ⟨-, rfl, -⟩
      · cases hok
      · obtain ⟨hclaimed, hspares, hstored⟩ := claimed_storeMessage hclaimed rfl hstore hreply
        have hall := Spares.of_loses_trans (s := s) hexpired hspares
        refine ⟨hclaimed, hall, fun n hn hgone hneeds => .inr ?_⟩
        obtain ⟨rfl, hspares⟩ := hstored n hn
        exact hspares _ _ ((Index.get?_commit _ _ _).trans (if_pos rfl)) hgone hneeds

end Stream

end StreamBroker
