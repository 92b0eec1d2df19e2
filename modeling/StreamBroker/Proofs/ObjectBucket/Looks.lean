import StreamBroker.Proofs.Index.Queries
import StreamBroker.Proofs.ObjectBucket.Lodged

/-!
# Looks at a bucket

A look at a bucket is answered from the messages that are not too old.  It does not tell how many
numbers were given away, which names were made up, or how much of what is too old has gone.  So two
brokers that have the same messages of a bucket, but for what is too old, answer the same when one
looks, at once and at any later time.

That looks do not tell brokers apart is a fact of their steps: where every step of an action answers
the same and leaves the brokers alike, the action does.

## Main definitions

* `Action.AnswersAlike`: an action answers the same in two states
* `Action.Respects`: an action does not tell related states apart
* `ObjectBucket.Resembles`: two brokers have the same messages of a bucket, but for what is too old
* `ObjectBucket.ShowAlike`: looks at a bucket are answered the same by two brokers

## Main results

* `ObjectBucket.Resembles.meanwhile`: brokers that resemble each other do so at any later time
* `ObjectBucket.Resembles.showAlike`: brokers that resemble each other answer the same
-/

namespace StreamBroker

/-! ## Actions that do not tell apart -/

namespace Action

variable {σ α β : Type} {R : σ → σ → Prop}

/-- An action answers the same in two states, unless the numbers are used up in one. -/
def AnswersAlike (x : Action σ α) (s s' : σ) : Prop :=
  (x.run s).1 ≠ .error .numbersExhausted → (x.run s').1 ≠ .error .numbersExhausted →
    (x.run s').1 = (x.run s).1

/-- An action does not tell related states apart: it answers the same in both and leaves them
related, unless the numbers are used up in one. -/
def Respects (R : σ → σ → Prop) (x : Action σ α) : Prop :=
  ∀ ⦃s s'⦄, R s s' → ∀ ⦃r r' t t'⦄, x.run s = (r, t) → x.run s' = (r', t') →
    r ≠ .error .numbersExhausted → r' ≠ .error .numbersExhausted → r' = r ∧ R t t'

theorem Respects.answersAlike {x : Action σ α} {s s' : σ} (hx : Respects R x) (hs : R s s') :
    x.AnswersAlike s s' := fun hr hr' => (hx hs rfl rfl hr hr').1

/-- What does nothing and always answers the same does not tell states apart. -/
theorem respects_of_still {x : Action σ α} {r : Except Error α} (hx : ∀ s, x.run s = (r, s)) :
    Respects R x := by
  rintro s s' hs r₁ r₂ t t' hrun hrun' - -
  cases (hx s).symm.trans hrun
  cases (hx s').symm.trans hrun'
  exact ⟨rfl, hs⟩

theorem respects_pure (a : α) : Respects R (pure a : Action σ α) := respects_of_still fun _ => rfl

theorem respects_refuse (e : Error) : Respects R (refuse e : Action σ α) :=
  respects_of_still fun _ => rfl

theorem respects_ofExcept (r : Except Error α) : Respects R (liftM r : Action σ α) :=
  respects_of_still fun _ => rfl

/-- One action after the other. -/
theorem Respects.bind {x : Action σ α} {f : α → Action σ β} (hx : Respects R x)
    (hf : ∀ a, Respects R (f a)) : Respects R (x >>= f) := by
  intro s s' hs r r' t t' hrun hrun' hr hr'
  rcases action_bind_cases hrun with ⟨e, hfirst, rfl⟩ | ⟨a, u, hfirst, hrun⟩
  · have he : Except.error (α := α) e ≠ .error .numbersExhausted := fun he => hr (by cases he; rfl)
    rcases action_bind_cases hrun' with ⟨e', hfirst', rfl⟩ | ⟨a', u', hfirst', hrun'⟩
    · obtain ⟨heq, hleft⟩ := hx hs hfirst hfirst' he fun he' => hr' (by cases he'; rfl)
      cases heq
      exact ⟨rfl, hleft⟩
    · cases (hx hs hfirst hfirst' he fun he' => by cases he').1
  · rcases action_bind_cases hrun' with ⟨e', hfirst', rfl⟩ | ⟨a', u', hfirst', hrun'⟩
    · cases (hx hs hfirst hfirst' (fun he => by cases he) fun he' => hr' (by cases he'; rfl)).1
    · obtain ⟨heq, hleft⟩ :=
        hx hs hfirst hfirst' (fun he => by cases he) fun he' => by cases he'
      cases heq
      exact hf a hleft hrun hrun' hr hr'

/-- An action whose refusal is taken as an answer. -/
theorem Respects.attempt {x : Action σ α} (hx : Respects R x) : Respects R x.attempt := by
  intro s s' hs r r' t t' hrun hrun' hr hr'
  rcases action_attempt_cases hrun with ⟨rfl, -⟩ | ⟨a, rfl, hfirst, ha⟩
  · exact absurd rfl hr
  rcases action_attempt_cases hrun' with ⟨rfl, -⟩ | ⟨a', rfl, hfirst', ha'⟩
  · exact absurd rfl hr'
  obtain ⟨rfl, hleft⟩ := hx hs hfirst hfirst' ha ha'
  exact ⟨rfl, hleft⟩

end Action

namespace ObjectBucket

variable {o : ObjectBucket} {settings : ObjectBucketSettings}
  {b b' c c' : Broker} {α : Type}

/-! ## Brokers that have the same messages -/

/-- Two brokers have the same messages of a bucket at the same time, but for what is too old. -/
def Resembles (o : ObjectBucket) (settings : ObjectBucketSettings) (b b' : Broker) : Prop :=
  ∃ s s', o.Lodged settings (fun _ => True) b s ∧ o.Lodged settings (fun _ => True) b' s' ∧
    b'.clock = b.clock ∧
    (s'.index.toList.filter fun m => decide (s.settings.IsYoung b.clock.wall m)) =
      s.index.toList.filter fun m => decide (s.settings.IsYoung b.clock.wall m)

/-- **Brokers that resemble each other do so at any later time.** -/
theorem Resembles.meanwhile (h : o.Resembles settings b b')
    (hage : Broker.LeavesToAge o.stream b c) (hage' : Broker.LeavesToAge o.stream b' c')
    (hclock : c'.clock = c.clock) : o.Resembles settings c c' := by
  obtain ⟨s, s', hs, hs', hclock₀, hyoung⟩ := h
  obtain ⟨t, ht, hsettings, hleft⟩ := hs.meanwhile hage
  obtain ⟨t', ht', hsettings', hleft'⟩ := hs'.meanwhile hage'
  have hsame := hs.stream_settings_eq hs'
  -- Of what is left later the same is not too old as of what there was.
  have hlater : (t.index.toList.filter fun m => decide (s.settings.IsYoung c.clock.wall m)) =
      s.index.toList.filter fun m => decide (s.settings.IsYoung c.clock.wall m) := by
    rcases hleft with heq | ⟨now, hnow, heq⟩
    · rw [heq]
    · rw [heq, StreamSettings.filter_isYoung_filter _ hnow]
  have hlater' : (t'.index.toList.filter fun m => decide (s.settings.IsYoung c.clock.wall m)) =
      s'.index.toList.filter fun m => decide (s.settings.IsYoung c.clock.wall m) := by
    rcases hleft' with heq | ⟨now, hnow, heq⟩
    · rw [heq]
    · rw [heq, hsame, StreamSettings.filter_isYoung_filter _ (hclock ▸ hnow)]
  refine ⟨t, t', ht, ht', hclock, ?_⟩
  rw [hsettings, hlater, hlater', ← StreamSettings.filter_isYoung_filter _ hage.1, hyoung,
    StreamSettings.filter_isYoung_filter _ hage.1]

/-! ## Looks -/

section Looks

open StreamBroker.Action

/-- **A look at the stream does not tell brokers apart** when its answer depends on the messages. -/
theorem respects_inspect {check : Except Error Unit} {f : Stream → Except Error α}
    (hf : ∀ ⦃s s' : Stream⦄, s.index.Sound → s'.index.Sound → s'.name = s.name →
      s'.index.toList = s.index.toList → f s' = f s) :
    Respects (o.Resembles settings) (Broker.inspect o.stream check f) := by
  rintro b b' ⟨s, s', h, h', hclock, hyoung⟩ r r' c c' hrun hrun' hr hr'
  have hsame := h.stream_settings_eq h'
  have hrun₀ := hrun
  have hrun₀' := hrun'
  rw [← h.id_eq] at hrun
  rw [← h'.id_eq] at hrun'
  rcases h.lodges.inspect_cases hrun hr with ⟨e, hcheck, rfl, rfl⟩ | ⟨hcheck, t, hbecomes, hindex, rfl⟩
  · rcases h'.lodges.inspect_cases hrun' hr' with ⟨e', hcheck', rfl, rfl⟩ | ⟨hcheck', -⟩
    · cases hcheck.symm.trans hcheck'
      exact ⟨rfl, s, s', h, h', hclock, hyoung⟩
    · cases hcheck.symm.trans hcheck'
  · rcases h'.lodges.inspect_cases hrun' hr' with
      ⟨e', hcheck', -⟩ | ⟨-, t', hbecomes', hindex', rfl⟩
    · cases hcheck.symm.trans hcheck'
    have hlooked := h.looked hbecomes hindex
    have hlooked' := h'.looked hbecomes' hindex'
    -- What is too old goes from both, and what is left is the same.
    have hlist : t'.index.toList = t.index.toList := by
      rw [hindex, hindex', h.toList_expire, h'.toList_expire, hclock, hsame, hyoung]
    refine ⟨hf hlooked.rested.lodges.sound hlooked'.rested.lodges.sound ?_ hlist,
      t, t', hlooked.rested.toLodged, hlooked'.rested.toLodged, ?_, ?_⟩
    · rw [hlooked.rested.stream_name, hlooked'.rested.stream_name]
    · rw [hbecomes.clock_eq, hbecomes'.clock_eq, hclock]
    · rw [hlist]

theorem respects_lastMessage (subject : String) :
    Respects (o.Resembles settings) (Broker.lastMessage o.stream subject) := by
  refine respects_inspect fun s s' hs hs' hname hlist => ?_
  have hlast : s'.index.lastForSubject subject = s.index.lastForSubject subject := by
    rw [hs.coherent.lastForSubject_eq, hs'.coherent.lastForSubject_eq, Index.ofSubject,
      Index.ofSubject, hlist]
  simp only [hlast, hname]

theorem respects_matchingMessages (pattern : String) :
    Respects (o.Resembles settings) (Broker.matchingMessages o.stream pattern) := by
  refine respects_inspect fun s s' _ _ _ hlist => ?_
  simp only [Index.matching, hlist]

theorem respects_lastPerSubject (pattern : String) :
    Respects (o.Resembles settings) (Broker.lastPerSubject o.stream pattern) := by
  refine respects_inspect fun s s' hs hs' _ hlist => ?_
  simp only [hs.coherent.lastPerSubject_eq, hs'.coherent.lastPerSubject_eq, Index.newestMatching,
    Index.matching, Index.ofSubject, hlist]

theorem respects_newestDescription (object : String) :
    Respects (o.Resembles settings) (o.newestDescription object) := by
  rw [newestDescription]
  refine (respects_ofExcept _).bind fun _ => (respects_lastMessage _).attempt.bind fun r => ?_
  cases r with
  | error e =>
    dsimp only
    split
    · exact respects_pure _
    · exact respects_refuse _
  | ok m =>
    dsimp only
    split
    · exact respects_pure _
    · exact respects_refuse _

theorem respects_info (object : String) :
    Respects (o.Resembles settings) (o.info object) := by
  rw [info]
  refine (respects_newestDescription object).bind fun r => ?_
  cases r with
  | none => exact respects_refuse _
  | some d =>
    dsimp only
    split
    · exact respects_refuse _
    · exact respects_pure _

theorem respects_get (object : String) : Respects (o.Resembles settings) (o.get object) := by
  rw [get]
  refine (respects_info object).bind fun d => (respects_matchingMessages _).bind fun chunks => ?_
  dsimp only
  split
  · exact respects_refuse _
  · split
    · exact respects_pure _
    · exact respects_refuse _

theorem respects_list : Respects (o.Resembles settings) o.list := by
  rw [list]
  exact (respects_lastPerSubject _).bind fun messages => respects_pure _

end Looks

/-! ## What is told -/

/-- Whoever looks at a bucket is told the same by two brokers. -/
structure ShowAlike (o : ObjectBucket) (b b' : Broker) : Prop where
  /-- The descriptions of objects are the same. -/
  info : ∀ object, (o.info object).AnswersAlike b b'
  /-- So is their data. -/
  get : ∀ object, (o.get object).AnswersAlike b b'
  /-- The same objects are listed. -/
  list : o.list.AnswersAlike b b'

/-- **Brokers that resemble each other answer the same.** -/
theorem Resembles.showAlike (h : o.Resembles settings b b') : o.ShowAlike b b' where
  info object := (respects_info object).answersAlike h
  get object := (respects_get object).answersAlike h
  list := respects_list.answersAlike h

end ObjectBucket

end StreamBroker
