import StreamBroker.Clock
import StreamBroker.Proofs.Except
import StreamBroker.Proofs.Index.Trimmed

/-!
# Messages in the order of time

What is too old is looked for from the front, up to the first message that is young enough.  This
finds all of it because messages come in the order of time: a message under a higher number is not
older.  The number of a message and its time are given in one go, and neither a removal nor the
passing of time disturbs the order.

## Main definitions

* `StreamSettings.IsYoung`: a message is not too old under settings
* `Chronological`: messages come in the order of time, and none is from the future
* `Index.IsDated`: the messages of an index do

## Main results

* `Index.IsDated.commit`, `Index.IsDated.loses`: messages come and go
* `Retention.toList_expire`: what is left are the messages that are not too old
-/

namespace StreamBroker

/-! ## Time -/

theorem Timestamp.sinceEpoch_toMicro (t : Timestamp) : t.toMicro.sinceEpoch = t.micros * 1000 := by
  simp only [toMicro, ofMicros, sinceEpoch]
  omega

theorem Timestamp.sinceEpoch_toMicro_le (t : Timestamp) :
    t.toMicro.sinceEpoch ≤ t.sinceEpoch := by
  rw [sinceEpoch_toMicro, micros, sinceEpoch]
  omega

theorem Timestamp.sinceEpoch_toMicro_mono {t u : Timestamp} (h : t.sinceEpoch ≤ u.sinceEpoch) :
    t.toMicro.sinceEpoch ≤ u.toMicro.sinceEpoch := by
  rw [sinceEpoch_toMicro, sinceEpoch_toMicro, micros, micros]
  rw [sinceEpoch, sinceEpoch] at h
  omega

theorem Clock.sinceEpoch_wall (c : Clock) : c.wall.sinceEpoch = c.origin + c.elapsed := by
  simp only [wall, Timestamp.ofNanos, Timestamp.sinceEpoch]
  omega

/-! ## Messages that are not too old -/

/-- A message is younger than the age that settings allow. -/
def StreamSettings.IsYoung (settings : StreamSettings) (now : Timestamp) (m : StoredMessage) :
    Prop :=
  ∀ maxAge ∈ settings.maxAge, now.sinceEpoch - m.timestamp.sinceEpoch < maxAge.nanos

instance (settings : StreamSettings) (now : Timestamp) :
    DecidablePred (settings.IsYoung now) := fun _ => inferInstanceAs (Decidable (∀ _ ∈ _, _))

/-- What is young enough at a time was so before. -/
theorem StreamSettings.IsYoung.of_le {settings : StreamSettings} {now later : Timestamp}
    {m : StoredMessage} (h : settings.IsYoung later m)
    (hle : now.sinceEpoch ≤ later.sinceEpoch) : settings.IsYoung now m := by
  intro maxAge hmaxAge
  have := h maxAge hmaxAge
  omega

/-- Of what was not too old at a time, the same is not too old later. -/
theorem StreamSettings.filter_isYoung_filter (settings : StreamSettings) {now later : Timestamp}
    (hle : now.sinceEpoch ≤ later.sinceEpoch) (ms : List StoredMessage) :
    ((ms.filter fun m => decide (settings.IsYoung now m)).filter fun m =>
        decide (settings.IsYoung later m)) =
      ms.filter fun m => decide (settings.IsYoung later m) := by
  rw [List.filter_filter]
  refine List.filter_congr fun m _ => ?_
  rw [Bool.and_eq_left_iff_imp, decide_eq_true_eq, decide_eq_true_eq]
  exact fun hyoung => hyoung.of_le hle

/-- What has just come is not too old under settings that are accepted. -/
theorem StreamSettings.maxAge_pos {settings : StreamSettings} (h : settings.check = .ok ())
    {maxAge : Duration} (hmaxAge : maxAge ∈ settings.maxAge) : 0 < maxAge.nanos := by
  rw [check] at h
  obtain ⟨-, -, h⟩ := except_bind_eq_ok.1 h
  obtain ⟨-, -, h⟩ := except_bind_eq_ok.1 h
  obtain ⟨-, -, h⟩ := except_bind_eq_ok.1 h
  obtain ⟨-, -, h⟩ := except_bind_eq_ok.1 h
  refine Nat.pos_of_ne_zero fun hzero => ?_
  have hnone : settings.maxAge = some Duration.zero :=
    hmaxAge.trans (congrArg some (congrArg Duration.mk hzero))
  rw [if_pos hnone] at h
  cases h

theorem Retention.isExpired_eq_false_iff {maxAge : Duration} {now : Timestamp}
    {m : StoredMessage} : isExpired maxAge now m = false ↔
      now.sinceEpoch - m.timestamp.sinceEpoch < maxAge.nanos := by
  rw [isExpired, decide_eq_false_iff_not]
  omega

/-! ## The order of time -/

/-- Messages come in the order of time, and none is from the future. -/
structure Chronological (now : Timestamp) (has : StoredMessage → Prop) : Prop where
  /-- A message under a higher number is not older. -/
  mono : ∀ {m w}, has m → has w → m.sequence < w.sequence →
    m.timestamp.sinceEpoch ≤ w.timestamp.sinceEpoch
  /-- No message is from the future. -/
  le_now : ∀ {m}, has m → m.timestamp.sinceEpoch ≤ now.sinceEpoch

namespace Chronological

variable {now later : Timestamp} {has has' : StoredMessage → Prop}

/-- Messages go, and time goes on. -/
theorem of_subset (h : Chronological now has) (hhas : ∀ m, has' m → has m)
    (hle : now.sinceEpoch ≤ later.sinceEpoch) : Chronological later has' where
  mono hm hw hlt := h.mono (hhas _ hm) (hhas _ hw) hlt
  le_now hm := Int.le_trans (h.le_now (hhas _ hm)) hle

/-- A message comes now, under a number above all others. -/
theorem insert {new : StoredMessage} (h : Chronological now has) (hnew : new.timestamp = now)
    (hhas : ∀ m, has' m → m = new ∨ has m ∧ m.sequence < new.sequence) :
    Chronological now has' where
  mono {m w} hm hw hlt := by
    have hmle : m.timestamp.sinceEpoch ≤ now.sinceEpoch := by
      rcases hhas m hm with rfl | ⟨hm, -⟩
      · exact Int.le_of_eq (congrArg _ hnew)
      · exact h.le_now hm
    rcases hhas w hw with rfl | ⟨hw, hwlt⟩
    · exact hnew ▸ hmle
    · rcases hhas m hm with rfl | ⟨hm, -⟩
      · omega
      · exact h.mono hm hw hlt
  le_now {m} hm := by
    rcases hhas m hm with rfl | ⟨hm, -⟩
    · exact Int.le_of_eq (congrArg _ hnew)
    · exact h.le_now hm

end Chronological

/-! ## The messages of an index -/

namespace Index

variable {x y : Index} {now later : Timestamp} {gone : List Nat} {m : StoredMessage}

/-- The messages of an index come in the order of time, and none is from the future. -/
def IsDated (x : Index) (now : Timestamp) : Prop := Chronological now (· ∈ x.toList)

theorem empty_isDated (now : Timestamp) : empty.IsDated now where
  mono hm := by cases hm
  le_now hm := by cases hm

namespace IsDated

theorem of_le (h : x.IsDated now) (hle : now.sinceEpoch ≤ later.sinceEpoch) : x.IsDated later :=
  h.of_subset (fun _ hm => hm) hle

theorem loses (h : x.IsDated now) (hx : x.Filed) (hloses : x.Loses gone y) : y.IsDated now :=
  h.of_subset (fun _ hm => (hloses.toList_sublist hx).subset hm) (Int.le_refl _)

theorem commit (h : x.IsDated now) (hx : x.Filed) (hm : x.lastSeq < m.sequence)
    (htime : m.timestamp = now) : (x.commit m).IsDated now := by
  refine h.insert htime fun w hw => ?_
  rw [toList_commit hx hm, List.mem_append, List.mem_singleton] at hw
  refine hw.symm.imp_right fun hw => ⟨hw, ?_⟩
  exact Nat.lt_of_le_of_lt (hx.le_lastSeq (hx.mem_toList_iff.1 hw)) hm

end IsDated

end Index

/-! ## Expiry -/

namespace Retention

variable {x : Index} {now latest : Timestamp} {settings : StreamSettings} {m : StoredMessage}

/-- **What is left are the messages that are not too old**, if messages come in the order of
time. -/
theorem toList_expire (hx : x.Filed) (h : x.IsDated latest) (settings : StreamSettings)
    (now : Timestamp) : (expire settings now x).2.toList =
      x.toList.filter fun m => decide (settings.IsYoung now m) := by
  rw [expire]
  cases hage : settings.maxAge with
  | none =>
    refine (List.filter_eq_self.2 fun m _ => decide_eq_true fun maxAge hmaxAge => ?_).symm
    rw [hage] at hmaxAge
    cases hmaxAge
  | some maxAge =>
    dsimp only
    have hfront : x.toList.takeWhile (isExpired maxAge now) =
        x.toList.filter (isExpired maxAge now) := by
      refine takeWhile_eq_filter_of_pairwise (hx.pairwise_toList.imp_of_mem ?_)
      intro m w hm hw hlt hexpired
      have hle := h.mono hm hw hlt
      rw [isExpired, decide_eq_true_eq] at hexpired ⊢
      omega
    rw [hfront, Index.toList_removeAll hx]
    refine List.filter_congr fun m hm => ?_
    have hyoung : settings.IsYoung now m ↔ isExpired maxAge now m = false := by
      rw [isExpired_eq_false_iff, StreamSettings.IsYoung, hage]
      simp
    -- The numbers of other messages are other numbers.
    have hmem : m.sequence ∈ (x.toList.filter (isExpired maxAge now)).map (·.sequence) ↔
        isExpired maxAge now m = true := by
      rw [hx.mem_map_filter_iff]
      constructor
      · rintro ⟨w, hw, hp⟩
        rw [hx.mem_toList_iff.1 hm] at hw
        cases hw
        exact hp
      · exact fun hp => ⟨m, hx.mem_toList_iff.1 hm, hp⟩
    rw [decide_eq_decide, hmem, hyoung, Bool.not_eq_true]

theorem mem_expire_iff (hx : x.Filed) (h : x.IsDated latest) :
    m ∈ (expire settings now x).2.toList ↔ m ∈ x.toList ∧ settings.IsYoung now m := by
  rw [toList_expire hx h, List.mem_filter, decide_eq_true_eq]

/-- Where nothing is too old, nothing goes. -/
theorem expire_of_young (h : ∀ m ∈ x.toList, settings.IsYoung now m) :
    expire settings now x = ([], x) := by
  rw [expire]
  cases hage : settings.maxAge with
  | none => rfl
  | some maxAge =>
    have hfront : x.toList.takeWhile (isExpired maxAge now) = [] := by
      rw [List.takeWhile_eq_nil_iff]
      intro hlength hexpired
      have hyoung := h _ (List.get_mem x.toList ⟨0, hlength⟩) maxAge hage
      rw [← isExpired_eq_false_iff] at hyoung
      cases hyoung.symm.trans hexpired
    dsimp only
    rw [hfront]
    rfl

end Retention

end StreamBroker
