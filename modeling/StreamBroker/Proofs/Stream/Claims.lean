import StreamBroker.Proofs.Cursor.Serves
import StreamBroker.Proofs.Stream.LogStep

/-!
# What the consumers of a stream claim

A stream that keeps what is needed looks only at the messages that an operation has settled, and
lets go those of them that no consumer needs any more.  That is enough when everything in the
stream was needed before: what is not needed after the operation was settled by it.

## Main definitions

* `Stream.cursors`: the cursors of a stream
* `Stream.Claimed`: everything in a stream is needed
* `Stream.Spares`: what is still needed stays, but for some numbers

## Main results

* `Stream.Claimed.lose`: messages go, whichever they are
* `Stream.Claimed.release`: what was settled and is not needed goes
* `Stream.Claimed.releaseUnclaimed`: all that is not needed goes
-/

namespace StreamBroker

/-! ## What is released -/

section Released

variable {x y : Index} {gone candidates : List Nat} {needed : Retention.Needed} {n : Nat}
  {m : StoredMessage}

theorem Index.Loses.mem_of_get? (h : x.Loses gone y) (hm : x.get? n = some m)
    (hn : y.get? n = none) : n ∈ gone := by
  apply Decidable.byContradiction
  intro hmem
  rw [h.get?_of_not_mem hmem, hm] at hn
  cases hn

/-- What was released is not needed. -/
theorem Retention.mem_release_iff (hm : x.get? n = some m) :
    n ∈ (release .interest needed candidates x).1 ↔
      n ∈ candidates ∧ needed n m.subject = false := by
  rw [release, Index.mem_removeAll_iff, List.mem_filter, hm, Bool.not_eq_true']
  simp [Index.contains_iff.2 ⟨m, hm⟩]

theorem Retention.mem_releaseUnclaimed_iff
    (hx : ∀ {k w}, x.get? k = some w → w.sequence = k) (hm : x.get? n = some m) :
    n ∈ (releaseUnclaimed needed x).1 ↔ needed n m.subject = false := by
  rw [releaseUnclaimed, Index.mem_removeAll_iff, List.mem_map]
  constructor
  · rintro ⟨⟨w, hw, rfl⟩, -⟩
    obtain ⟨hw, hneeded⟩ := List.mem_filter.1 hw
    obtain ⟨k, hk⟩ := SeqMap.mem_values_iff.1 hw
    -- A message that is found under another number would not be the one that is selected.
    obtain rfl := hx hk
    obtain rfl := Option.some.inj (hm.symm.trans hk)
    simpa using hneeded
  · intro hneeded
    obtain rfl := hx hm
    refine ⟨⟨m, List.mem_filter.2 ⟨SeqMap.mem_values_iff.2 ⟨_, hm⟩, ?_⟩, rfl⟩,
      Index.contains_iff.2 ⟨m, hm⟩⟩
    rw [hneeded]
    rfl

end Released

namespace Stream

/-! ## Cursors -/

/-- The cursors of a stream, with the numbers of their consumers. -/
def cursors (s : Stream) : List (Nat × Cursor) := s.consumers.map fun c => (c.id, c.cursor)

/-- The cursors with those of a number changed. -/
def changeCursor (cs : List (Nat × Cursor)) (id : Nat) (f : Cursor → Cursor) :
    List (Nat × Cursor) := cs.map fun e => if e.1 = id then (e.1, f e.2) else e

variable {s t u : Stream} {n : Nat} {m : StoredMessage} {subject : String}

theorem isNeeded_iff :
    s.isNeeded n subject = true ↔ ∃ e ∈ s.cursors, e.2.needs n subject = true := by
  rw [isNeeded, List.any_eq_true, cursors]
  constructor
  · rintro ⟨c, hc, hneeds⟩
    exact ⟨_, List.mem_map.2 ⟨c, hc, rfl⟩, hneeds⟩
  · rintro ⟨e, he, hneeds⟩
    obtain ⟨c, hc, rfl⟩ := List.mem_map.1 he
    exact ⟨c, hc, hneeds⟩

theorem isNeeded_congr (h : t.cursors = s.cursors) : t.isNeeded = s.isNeeded := by
  funext n subject
  rw [Bool.eq_iff_iff, isNeeded_iff, isNeeded_iff, h]

theorem cursors_notifyAll (s : Stream) : s.notifyAll.cursors = s.cursors := List.map_map

theorem cursors_announce (s : Stream) (m : StoredMessage) : (s.announce m).cursors = s.cursors := by
  rw [announce]
  split <;> rfl

theorem cursors_modifyConsumer (s : Stream) (id : Nat) {f : Consumer → Consumer}
    {g : Cursor → Cursor} (hid : ∀ c, (f c).id = c.id) (hg : ∀ c, (f c).cursor = g c.cursor) :
    (s.modifyConsumer id f).cursors = changeCursor s.cursors id g := by
  rw [cursors, modifyConsumer, changeCursor, cursors, List.map_map, List.map_map]
  apply List.map_congr_left
  intro c _
  simp only [Function.comp, beq_iff_eq]
  split <;> simp_all

theorem changeCursor_self (cs : List (Nat × Cursor)) (id : Nat) :
    changeCursor cs id (fun c => c) = cs := by
  rw [changeCursor]
  simp

theorem cursors_notify (s : Stream) (id : Nat) :
    (s.modifyConsumer id Consumer.notify).cursors = s.cursors :=
  (cursors_modifyConsumer s id (f := Consumer.notify) (g := fun c => c) (fun _ => rfl)
    (fun _ => rfl)).trans (changeCursor_self _ id)

/-! ## Claims -/

/-- The consumers of a stream that keeps what is needed know what there is. -/
structure Orderly (s : Stream) : Prop where
  /-- The stream keeps what is needed. -/
  retention : s.settings.retention = .interest
  /-- The messages are found under their numbers. -/
  keyed : s.index.Keyed
  /-- The consumers are told apart. -/
  nodup : (s.cursors.map (·.1)).Nodup
  /-- The cursors keep track of the messages. -/
  tracks : ∀ e ∈ s.cursors, e.2.Tracks s.index

/-- A stream that keeps what is needed holds nothing else. -/
structure Claimed (s : Stream) : Prop extends s.Orderly where
  /-- Everything is needed. -/
  needed : ∀ {n m}, s.index.get? n = some m → s.isNeeded n m.subject = true

/-- What went from a stream is not needed, but for some numbers. -/
def Spares (s : Stream) (taken : Nat → Prop) (t : Stream) : Prop :=
  ∀ n m, s.index.get? n = some m → t.index.get? n = none → t.isNeeded n m.subject = true → taken n

variable {gone settled : List Nat} {id : Nat} {g : Cursor → Cursor} {taken : Nat → Prop}

theorem Spares.refl (s : Stream) (taken : Nat → Prop) : s.Spares taken s := fun n m hm hn => by
  rw [hm] at hn
  cases hn

theorem spares_of_loses (h : s.index.Loses gone t.index) : s.Spares (· ∈ gone) t :=
  fun _ _ hm hn _ => h.mem_of_get? hm hn

/-- What is spared at first and then is spared in all, if nothing is needed later that was not
before. -/
theorem Spares.trans (h : s.Spares taken t) (hloses : s.index.Loses gone t.index)
    (h' : t.Spares taken u)
    (hneeded : ∀ n subject, u.isNeeded n subject = true → t.isNeeded n subject = true) :
    s.Spares taken u := by
  intro n m hm hn hu
  -- What is gone in the end went at first or then.
  cases ht : t.index.get? n with
  | none => exact h n m hm ht (hneeded n _ hu)
  | some w =>
    obtain rfl := Option.some.inj (hm.symm.trans (hloses.get?_of_get? ht))
    exact h' n m ht hn hu

theorem Spares.mono {taken' : Nat → Prop} (h : s.Spares taken t) (himp : ∀ n, taken n → taken' n) :
    s.Spares taken' t := fun n m hm hn hu => himp n (h n m hm hn hu)

/-- Messages go, whichever they are, and of the others what is needed is spared. -/
theorem Spares.of_loses_trans (hloses : s.index.Loses gone t.index) (h : t.Spares taken u) :
    s.Spares (fun n => n ∈ gone ∨ taken n) u := by
  intro n m hm hn hu
  by_cases hmem : n ∈ gone
  · exact .inl hmem
  · exact .inr (h n m ((hloses.get?_of_not_mem hmem).trans hm) hn hu)

/-- An index that stays as it is loses nothing. -/
theorem spares_of_index_eq (h : t.index = s.index) (taken : Nat → Prop) : s.Spares taken t :=
  fun n m hm hn => by
    rw [h, hm] at hn
    cases hn

theorem isNeeded_of_subset (h : t.cursors ⊆ s.cursors) (hn : t.isNeeded n subject = true) :
    s.isNeeded n subject = true := by
  obtain ⟨e, he, hneeds⟩ := isNeeded_iff.1 hn
  exact isNeeded_iff.2 ⟨e, h he, hneeds⟩

namespace Orderly

theorem lose (hs : s.Orderly) (h : s.index.Loses gone t.index) (hcursors : t.cursors = s.cursors)
    (hretention : t.settings.retention = s.settings.retention) : t.Orderly where
  retention := hretention.trans hs.retention
  keyed := hs.keyed.loses h
  nodup := hcursors ▸ hs.nodup
  tracks e he := (hs.tracks e (hcursors ▸ he)).loses h

theorem commit (hs : s.Orderly) (hnext : m.sequence = s.index.lastSeq + 1) :
    Orderly { s with index := s.index.commit m } where
  retention := hs.retention
  keyed := hs.keyed.commit (hnext ▸ Nat.lt_succ_self _)
  nodup := hs.nodup
  tracks e he := (hs.tracks e he).commit hnext

/-- Consumers go. -/
theorem sublist (hs : s.Orderly) (hindex : t.index = s.index)
    (hretention : t.settings.retention = s.settings.retention)
    (hcursors : t.cursors.Sublist s.cursors) : t.Orderly where
  retention := hretention.trans hs.retention
  keyed := hindex ▸ hs.keyed
  nodup := hs.nodup.sublist (hcursors.map _)
  tracks e he := hindex ▸ hs.tracks e (hcursors.subset he)

/-- A consumer is new. -/
theorem add (hs : s.Orderly) (hindex : t.index = s.index)
    (hretention : t.settings.retention = s.settings.retention) {c : Cursor}
    (hcursors : t.cursors = s.cursors ++ [(id, c)]) (hnew : ∀ e ∈ s.cursors, e.1 ≠ id)
    (hc : c.Tracks s.index) : t.Orderly where
  retention := hretention.trans hs.retention
  keyed := hindex ▸ hs.keyed
  nodup := by
    rw [hcursors, List.map_append, List.nodup_append]
    refine ⟨hs.nodup, List.pairwise_singleton .., ?_⟩
    intro i hi j hj heq
    obtain ⟨e, he, rfl⟩ := List.mem_map.1 hi
    exact hnew e he (heq.trans (List.mem_singleton.1 hj))
  tracks e he := by
    rw [hindex]
    rw [hcursors] at he
    rcases List.mem_append.1 he with he | he
    · exact hs.tracks e he
    · obtain rfl := List.mem_singleton.1 he
      exact hc

/-- A consumer that is told apart has one cursor. -/
theorem cursor_eq (hs : s.Orderly) {c d : Cursor} (hc : (id, c) ∈ s.cursors)
    (hd : (id, d) ∈ s.cursors) : d = c := by
  have hpairs := List.pairwise_map.1 hs.nodup
  -- Cursors of one number are one entry of the list.
  have hunique := List.Pairwise.forall_of_forall_of_flip
    (R := fun a b : Nat × Cursor => a.1 = b.1 → a = b) (fun _ _ _ => rfl)
    (hpairs.imp fun hne heq => absurd heq hne) (hpairs.imp fun hne heq => absurd heq.symm hne)
  exact (Prod.mk.inj (hunique hd hc rfl)).2

/-- A consumer goes on, and what is not needed any more is settled. -/
theorem modifyConsumer (hs : s.Orderly) {f : Consumer → Consumer} (hid : ∀ c, (f c).id = c.id)
    (hg : ∀ c, (f c).cursor = g c.cursor)
    (hserves : ∀ c, (id, c) ∈ s.cursors → Cursor.Serves s.index c settled (g c)) :
    (s.modifyConsumer id f).Orderly ∧ ∀ {n m}, s.index.get? n = some m →
      s.isNeeded n m.subject = true →
        (s.modifyConsumer id f).isNeeded n m.subject = true ∨ n ∈ settled := by
  have hcursors := cursors_modifyConsumer s id hid hg
  have hkeys : (s.modifyConsumer id f).cursors.map (·.1) = s.cursors.map (·.1) := by
    rw [hcursors, changeCursor, List.map_map]
    apply List.map_congr_left
    intro e _
    simp only [Function.comp]
    split <;> rfl
  refine ⟨⟨hs.retention, hs.keyed, hkeys ▸ hs.nodup, ?_⟩, ?_⟩
  · intro e he
    rw [hcursors] at he
    obtain ⟨d, hd, rfl⟩ := List.mem_map.1 he
    split
    · next hid => exact (hserves d.2 (hid ▸ hd)).tracks
    · exact hs.tracks d hd
  · intro n m hm hneeded
    obtain ⟨d, hd, hneeds⟩ := isNeeded_iff.1 hneeded
    have hmem : (if d.1 = id then (d.1, g d.2) else d) ∈ (s.modifyConsumer id f).cursors :=
      hcursors ▸ List.mem_map.2 ⟨d, hd, rfl⟩
    -- Another consumer needs it, or this one did, and then it still does or has settled it.
    by_cases hid : d.1 = id
    · rw [if_pos hid] at hmem
      apply ((hserves d.2 (hid ▸ hd)).needs (hs.tracks d hd) hm hneeds).imp_left
      intro h
      exact isNeeded_iff.2 ⟨_, hmem, h⟩
    · rw [if_neg hid] at hmem
      exact .inl (isNeeded_iff.2 ⟨d, hmem, hneeds⟩)

/-- Of what was settled all goes that is not needed, and nothing else. -/
theorem release (hs : s.Orderly)
    (hneeded : ∀ {n m}, s.index.get? n = some m → s.isNeeded n m.subject = true ∨ n ∈ settled)
    (hindex : t.index = (s.releasing settled s.index).2) (hcursors : t.cursors = s.cursors)
    (hretention : t.settings.retention = s.settings.retention) :
    t.Claimed ∧ s.Spares (fun _ => False) t := by
  have hloses := loses_releasing s settled s.index
  rw [← hindex] at hloses
  have hisNeeded := isNeeded_congr hcursors
  refine ⟨⟨hs.lose hloses hcursors hretention, ?_⟩, ?_⟩
  · intro n m hm
    rw [hisNeeded]
    have hm' := hloses.get?_of_get? hm
    rcases hneeded hm' with hneeded | hmem
    · exact hneeded
    · apply Decidable.byContradiction
      intro hneeds
      -- What was settled and nobody needs went, so it cannot be there.
      have hgone := (Retention.mem_release_iff hm').2 ⟨hmem, Bool.eq_false_iff.2 hneeds⟩
      rw [← hs.retention] at hgone
      rw [hloses.get?_eq_none hgone] at hm
      cases hm
  · intro n m hm hn hneeds
    have hgone := hloses.mem_of_get? hm hn
    rw [releasing, hs.retention, Retention.mem_release_iff hm, ← hisNeeded, hneeds] at hgone
    cases hgone.2

/-- All goes that is not needed, and nothing else. -/
theorem releaseUnclaimed (hs : s.Orderly)
    (hindex : t.index = (Retention.releaseUnclaimed s.isNeeded s.index).2)
    (hcursors : t.cursors = s.cursors)
    (hretention : t.settings.retention = s.settings.retention) :
    t.Claimed ∧ s.Spares (fun _ => False) t := by
  have hloses := Retention.loses_releaseUnclaimed s.isNeeded s.index
  rw [← hindex] at hloses
  have hisNeeded := isNeeded_congr hcursors
  refine ⟨⟨hs.lose hloses hcursors hretention, ?_⟩, ?_⟩
  · intro n m hm
    rw [hisNeeded]
    -- What is there and not needed would have gone.
    apply Decidable.byContradiction
    intro hneeds
    have hgone := (Retention.mem_releaseUnclaimed_iff hs.keyed.sequence_eq
      (hloses.get?_of_get? hm)).2 (Bool.eq_false_iff.2 hneeds)
    rw [hloses.get?_eq_none hgone] at hm
    cases hm
  · intro n m hm hn hneeds
    have hgone := hloses.mem_of_get? hm hn
    rw [Retention.mem_releaseUnclaimed_iff hs.keyed.sequence_eq hm, ← hisNeeded, hneeds] at hgone
    cases hgone

end Orderly

/-- **Messages may go, whichever they are**: everything that stays is still needed. -/
theorem Claimed.lose (hs : s.Claimed) (h : s.index.Loses gone t.index)
    (hcursors : t.cursors = s.cursors)
    (hretention : t.settings.retention = s.settings.retention) : t.Claimed where
  toOrderly := hs.toOrderly.lose h hcursors hretention
  needed hm := isNeeded_congr hcursors ▸ hs.needed (h.get?_of_get? hm)

end Stream

end StreamBroker
