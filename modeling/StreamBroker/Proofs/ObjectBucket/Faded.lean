import StreamBroker.Proofs.Index.Dated
import StreamBroker.Proofs.ObjectBucket.Shown

/-!
# What is left of objects

Descriptions and chunks get too old one by one.  What a bucket shows then is what is left of the
objects that it would show otherwise: some objects are not described any more, and of those that are
some have lost their chunks.  All chunks of an object have one age, so it loses all of them or none.

## Main definitions

* `ObjectDates`: when data was written
* `ObjectView.Fades`: chunks are missing
* `ObjectView.LeftOf`: what is shown is what is left of a map of objects

## Main results

* `ObjectView.LeftOf.changes`: an operation does to the map what it is to do
* `ObjectBucket.leftOf_of_filter`: what is left when messages get too old
-/

namespace StreamBroker

/-! ## When data was written -/

/-- When data was written, by its nuid. -/
abbrev ObjectDates := String → Timestamp

/-- The dates when an operation has begun to write data under a nuid. -/
def ObjectDates.after (W : ObjectDates) (nuid : String) (now : Timestamp) : ObjectOp → ObjectDates
  | .put _ _ => Function.update W nuid now
  | _ => W

namespace ObjectMap

variable {M N : ObjectMap}

open Classical in
/-- The objects of a map that do not have some names. -/
noncomputable def without (M : ObjectMap) (gone : String → Prop) : ObjectMap := fun name =>
  if gone name then none else M name

/-- The objects of a map are objects of another. -/
def Within (M N : ObjectMap) : Prop := ∀ object, ∀ x ∈ M object, x ∈ N object

theorem within_without (M : ObjectMap) (gone : String → Prop) : (M.without gone).Within M := by
  intro name x hx
  rw [without] at hx
  split at hx
  · cases hx
  · exact hx

theorem Within.set (h : M.Within N) (x : StoredObject) : (M.set x).Within (N.set x) := by
  intro object y hy
  simp only [ObjectMap.set, Function.update_apply] at hy ⊢
  split at hy
  · next hname => rwa [if_pos hname]
  · next hname =>
    rw [if_neg hname]
    exact h object y hy

theorem Within.erase (h : M.Within N) (name : String) : (M.erase name).Within (N.erase name) := by
  intro object y hy
  simp only [ObjectMap.erase, Function.update_apply] at hy ⊢
  split at hy
  · cases hy
  · next hname =>
    rw [if_neg hname]
    exact h object y hy

end ObjectMap

namespace ObjectView

variable {u v w v₀ w₀ : ObjectView} {M M₀ : ObjectMap} {W : ObjectDates}
  {spared spared' : String → Prop} {nuid : String} {d : ObjectDescription} {chunkSize : Nat}
  {now : Timestamp} {op : ObjectOp} {reply : Except Error (Option ObjectDescription)}

theorem newest_dropOld (v : ObjectView) (old : Option ObjectDescription) :
    (v.dropOld old).newest = v.newest := by
  cases old <;> rfl

/-! ## Chunks that are missing -/

/-- What is shown is what another view shows, but for chunks that are not spared. -/
structure Fades (spared : String → Prop) (v₀ v : ObjectView) : Prop where
  /-- All descriptions are there. -/
  newest_eq : v.newest = v₀.newest
  /-- Chunks that are spared are there. -/
  chunks_eq : ∀ nuid, spared nuid → v.chunks nuid = v₀.chunks nuid

namespace Fades

theorem describe (h : Fades spared v₀ v) (d : ObjectDescription) :
    Fades spared (v₀.describe d) (v.describe d) where
  newest_eq := by simp only [ObjectView.describe, h.newest_eq]
  chunks_eq := h.chunks_eq

theorem forget (h : Fades spared v₀ v) (object : String) :
    Fades spared (v₀.forget object) (v.forget object) where
  newest_eq := by simp only [ObjectView.forget, h.newest_eq]
  chunks_eq := h.chunks_eq

theorem drop (h : Fades spared v₀ v) (nuid : String) :
    Fades spared (v₀.drop nuid) (v.drop nuid) where
  newest_eq := h.newest_eq
  chunks_eq other hother := by
    simp only [ObjectView.drop, Function.update_apply, h.chunks_eq other hother]

theorem dropOld (h : Fades spared v₀ v) (old : Option ObjectDescription) :
    Fades spared (v₀.dropOld old) (v.dropOld old) := by
  cases old with
  | none => exact h
  | some d => exact h.drop d.nuid

theorem write (h : Fades spared v₀ v) (nuid : String) (chunks : List Bytes) :
    Fades spared (v₀.write nuid chunks) (v.write nuid chunks) where
  newest_eq := h.newest_eq
  chunks_eq other hother := by
    simp only [ObjectView.write, Function.update_apply, h.chunks_eq other hother]
    split
    · next heq => rw [← heq, h.chunks_eq other hother]
    · rfl

/-- A nuid that is not used in what is left was not used. -/
theorem unused (h : Fades spared v₀ v) (hM : v₀.Keeps M) (hunused : v.Unused nuid) :
    v₀.Unused nuid := by
  have hnewest (object : String) (d : ObjectDescription) (hd : d ∈ v₀.newest object) :
      d.nuid ≠ nuid := hunused.newest_ne object d (h.newest_eq ▸ hd)
  refine ⟨?_, hnewest⟩
  by_contra hchunks
  obtain ⟨object, x, hx, hnuid⟩ := hM.owned nuid hchunks
  exact hnewest object x.description (hM.newest_eq object x hx) hnuid

/-- Chunks of a nuid that is not used are there. -/
theorem widen (h : Fades spared v₀ v) (hM : v₀.Keeps M)
    (hspared : ∀ nuid, spared' nuid → spared nuid ∨ v.Unused nuid) : Fades spared' v₀ v where
  newest_eq := h.newest_eq
  chunks_eq nuid hnuid := by
    rcases hspared nuid hnuid with hbefore | hunused
    · exact h.chunks_eq nuid hbefore
    · rw [hunused.chunks_eq, (h.unused hM hunused).chunks_eq]

/-- **Operations see descriptions only**, so they do the same where chunks are missing. -/
theorem changes (h : Fades spared v₀ v) (hM : v₀.Keeps M)
    (hchanges : v.Changes chunkSize nuid now op reply w) :
    ∃ w₀, v₀.Changes chunkSize nuid now op reply w₀ ∧ Fades spared w₀ w := by
  cases hchanges with
  | refused op e => exact ⟨v₀, .refused op e, h⟩
  | put hnuid hunused hright hlabel hmodified =>
    refine ⟨_, .put hnuid (h.unused hM hunused) hright hlabel hmodified, ?_⟩
    rw [← h.newest_eq]
    exact ((h.write _ _).describe _).dropOld _
  | @relabelled object label current d hcurrent hlive hd hfree =>
    refine ⟨_, .relabelled (h.newest_eq ▸ hcurrent) hlive hd (h.newest_eq ▸ hfree), ?_⟩
    split
    · exact h.describe d
    · exact (h.describe d).forget object
  | deleted hcurrent hlive hname hnuid hdeleted hmodified =>
    exact ⟨_, .deleted (h.newest_eq ▸ hcurrent) hlive hname hnuid hdeleted hmodified,
      (h.describe _).drop _⟩

end Fades

/-! ## Descriptions that are missing -/

open Classical in
/-- What is shown without what was described by some names, and without its chunks. -/
noncomputable def without (v : ObjectView) (gone : String → Prop) : ObjectView where
  newest name := if gone name then none else v.newest name
  chunks nuid := if ∃ name, gone name ∧ ∃ d ∈ v.newest name, d.nuid = nuid then []
    else v.chunks nuid

/-- Where some names are not described any more, what is shown stands for the other objects. -/
theorem Keeps.without (h : v.Keeps M) (gone : String → Prop) :
    (v.without gone).Keeps (M.without gone) := by
  classical
  have hobject {name : String} {x : StoredObject} (hx : x ∈ M.without gone name) :
      ¬gone name ∧ x ∈ M name := by
    rw [ObjectMap.without] at hx
    split at hx
    · cases hx
    · next hname => exact ⟨hname, hx⟩
  have hshown {name : String} {d : ObjectDescription} (hd : d ∈ (v.without gone).newest name) :
      ¬gone name ∧ d ∈ v.newest name := by
    simp only [ObjectView.without] at hd
    split at hd
    · cases hd
    · next hname => exact ⟨hname, hd⟩
  exact {
    right := fun name x hx => h.right name x (hobject hx).2
    newest_eq := by
      intro name x hx
      obtain ⟨hname, hx⟩ := hobject hx
      exact (if_neg hname).trans (h.newest_eq name x hx)
    chunks_eq := by
      intro name x hx
      obtain ⟨hname, hx⟩ := hobject hx
      refine (if_neg ?_).trans (h.chunks_eq name x hx)
      -- Only the chunks of objects that go are gone, and no two objects share theirs.
      rintro ⟨other, hother, d, hd, hnuid⟩
      obtain rfl := h.apart other name d hd _ (h.newest_eq name x hx) hnuid
      exact hname hother
    deleted := by
      intro name hM d hd
      obtain ⟨hname, hd⟩ := hshown hd
      rw [ObjectMap.without, if_neg hname] at hM
      exact h.deleted name hM d hd
    apart := fun name other d hd e he => h.apart name other d (hshown hd).2 e (hshown he).2
    owned := by
      intro nuid hchunks
      simp only [ObjectView.without] at hchunks
      split at hchunks
      · exact absurd rfl hchunks
      · next hgone =>
        obtain ⟨name, x, hx, hnuid⟩ := h.owned nuid hchunks
        refine ⟨name, x, (if_neg fun hname => hgone ?_).trans hx, hnuid⟩
        exact ⟨name, hname, _, h.newest_eq name x hx, hnuid⟩ }

/-! ## What is left of a map -/

/-- What is shown is what is left of a map of objects at a time: some of them, of which chunks are
missing whose date is not spared.  Data is not younger than its description. -/
structure LeftOf (M : ObjectMap) (W : ObjectDates) (spared : Timestamp → Prop) (now : Timestamp)
    (v : ObjectView) : Prop where
  /-- With all chunks it would stand for some of the objects. -/
  exists_keeps : ∃ M₀ v₀, M₀.Within M ∧ v₀.Keeps M₀ ∧ Fades (fun nuid => spared (W nuid)) v₀ v
  /-- Data was written before it was described. -/
  written_le : ∀ object, ∀ d ∈ v.newest object,
    (W d.nuid).sinceEpoch ≤ d.modified.toMicro.sinceEpoch ∧ d.modified.sinceEpoch ≤ now.sinceEpoch

/-- What is described newest was described before, or it is described now: data that was put, or an
object that was described before. -/
theorem Changes.newest_cases (h : v.Changes chunkSize nuid now op reply w) {object : String}
    (hd : d ∈ w.newest object) :
    d ∈ v.newest object ∨ d.modified = now ∧
      ((∃ label source, op = .put label source ∧ d.nuid = nuid) ∨
        ∃ name, ∃ current ∈ v.newest name, d.nuid = current.nuid) := by
  have hdescribed {e : ObjectDescription} (hd : d ∈ (v.describe e).newest object) :
      d ∈ v.newest object ∨ d = e := by
    simp only [describe, Function.update_apply] at hd
    split at hd
    · exact .inr (Option.some.inj hd).symm
    · exact .inl hd
  cases h with
  | refused op e => exact .inl hd
  | @put label source e hnuid hunused hright hlabel hmodified =>
    rw [newest_dropOld] at hd
    have hd : d ∈ (v.describe e).newest object := hd
    refine (hdescribed hd).imp_right ?_
    rintro rfl
    exact ⟨hmodified, .inl ⟨label, source, rfl, hnuid⟩⟩
  | @relabelled name label current e hcurrent hlive he hfree =>
    -- What a relabelling forgets shows nothing, so what is shown is the new description or old.
    have hd : d ∈ (v.describe e).newest object := by
      split at hd
      · exact hd
      · simp only [forget, Function.update_apply] at hd
        split at hd
        · cases hd
        · exact hd
    refine (hdescribed hd).imp_right ?_
    rintro rfl
    exact ⟨he ▸ rfl, .inr ⟨name, current, hcurrent, he ▸ rfl⟩⟩
  | @deleted name current e hcurrent hlive hname hnuid hdeleted hmodified =>
    refine (hdescribed hd).imp_right ?_
    rintro rfl
    exact ⟨hmodified, .inr ⟨name, current, hcurrent, hnuid⟩⟩

/-- What is spared later was spared before. -/
theorem LeftOf.mono {spared spared' : Timestamp → Prop} {now' : Timestamp}
    (h : v.LeftOf M W spared now) (hspared : ∀ t, spared' t → spared t)
    (hnow : now.sinceEpoch ≤ now'.sinceEpoch) : v.LeftOf M W spared' now' := by
  obtain ⟨M₀, v₀, hwithin, hkeeps, hfades⟩ := h.exists_keeps
  refine ⟨⟨M₀, v₀, hwithin, hkeeps, hfades.newest_eq, fun nuid hnuid => ?_⟩, fun name d hd => ?_⟩
  · exact hfades.chunks_eq nuid (hspared _ hnuid)
  · obtain ⟨hwritten, hmodified⟩ := h.written_le name d hd
    exact ⟨hwritten, Int.le_trans hmodified hnow⟩

/-- What operations do to a map, they do to a map within it. -/
theorem Keeps.within_apply (h : v.Keeps M₀) (hM : M₀.Within M)
    (hchanges : v.Changes chunkSize nuid now op reply w) :
    (M₀.apply chunkSize op reply).Within (M.apply chunkSize op reply) := by
  cases hchanges with
  | refused op e => cases op <;> exact hM
  | put => exact hM.set _
  | @relabelled object label current d hcurrent hlive hd hfree =>
    obtain ⟨x, hx, -⟩ := h.exists_object hcurrent hlive
    simp only [ObjectMap.apply, Option.mem_def.1 hx, Option.mem_def.1 (hM object x hx)]
    exact (hM.erase object).set _
  | deleted => exact hM.erase _

/-- **What an operation does to what is left of a map, it does to the map.** -/
theorem LeftOf.changes {spared : Timestamp → Prop} (h : v.LeftOf M W spared now)
    (hchanges : v.Changes chunkSize nuid now op reply w)
    (hunused : ∀ label source, op = .put label source → v.Unused nuid) :
    w.LeftOf (M.apply chunkSize op reply) (W.after nuid now.toMicro op) spared now := by
  have hafter (other : String) : W.after nuid now.toMicro op other = W other ∨
      other = nuid ∧ v.Unused nuid := by
    cases op with
    | put label source =>
      rw [ObjectDates.after, Function.update_apply]
      split
      · next heq => exact .inr ⟨heq, hunused label source rfl⟩
      · exact .inl rfl
    | updateLabel | delete => exact .inl rfl
  constructor
  · obtain ⟨M₀, v₀, hwithin, hkeeps, hfades⟩ := h.exists_keeps
    have hfades' : Fades (fun other => spared (W.after nuid now.toMicro op other)) v₀ v := by
      refine hfades.widen hkeeps fun other hspared => ?_
      rcases hafter other with heq | ⟨rfl, hunused⟩
      · exact .inl (heq ▸ hspared)
      · exact .inr hunused
    obtain ⟨w₀, hchanges₀, hleft⟩ := hfades'.changes hkeeps hchanges
    exact ⟨_, w₀, hkeeps.within_apply hwithin hchanges₀, hkeeps.changes hchanges₀, hleft⟩
  · -- What was described before was written before; the rest is described now.
    have hbefore (object : String) (d : ObjectDescription) (hd : d ∈ v.newest object) :
        (W.after nuid now.toMicro op d.nuid).sinceEpoch ≤ d.modified.toMicro.sinceEpoch ∧
          d.modified.sinceEpoch ≤ now.sinceEpoch := by
      rcases hafter d.nuid with heq | ⟨heq, hunused⟩
      · exact heq ▸ h.written_le object d hd
      · exact absurd heq (hunused.newest_ne object d hd)
    have hanew {current d : ObjectDescription} {object : String}
        (hcurrent : current ∈ v.newest object) (hnuid : d.nuid = current.nuid)
        (hmodified : d.modified = now) :
        (W.after nuid now.toMicro op d.nuid).sinceEpoch ≤ d.modified.toMicro.sinceEpoch ∧
          d.modified.sinceEpoch ≤ now.sinceEpoch := by
      obtain ⟨hle, hnow⟩ := hbefore object current hcurrent
      rw [hnuid, hmodified]
      exact ⟨Int.le_trans hle (Timestamp.sinceEpoch_toMicro_mono hnow), Int.le_refl _⟩
    intro object d hd
    rcases hchanges.newest_cases hd with
      hd | ⟨hmodified, ⟨label, source, rfl, rfl⟩ | ⟨name, current, hcurrent, hnuid⟩⟩
    · exact hbefore object d hd
    · rw [ObjectDates.after, Function.update_self, hmodified]
      exact ⟨Int.le_refl _, Int.le_refl _⟩
    · exact hanew hcurrent hnuid hmodified

end ObjectView

/-! ## Messages that get too old -/

/-- The last of what is left of a list is its last, if something is left whenever anything before it
is. -/
theorem getLast?_filter_of_pairwise {α : Type} {p : α → Bool} {l : List α}
    (h : l.Pairwise fun a b => p a = true → p b = true) :
    (l.filter p).getLast? = l.getLast?.filter p := by
  induction l using List.reverseRecOn with
  | nil => rfl
  | append_singleton l a ih =>
    obtain ⟨-, -, hlast⟩ := List.pairwise_append.1 h
    rw [List.filter_append, List.getLast?_concat]
    by_cases ha : p a = true
    · rw [List.filter_cons_of_pos ha, List.filter_nil, List.getLast?_concat, Option.filter_some,
        if_pos ha]
    · have hnil : l.filter p = [] :=
        List.filter_eq_nil_iff.2 fun b hb hp => ha (hlast b hb a List.mem_cons_self hp)
      rw [List.filter_cons_of_neg ha, List.filter_nil, hnil, Option.filter_some, if_neg ha]
      rfl

namespace ObjectBucket

variable {o : ObjectBucket} {W : ObjectDates} {M : ObjectMap} {x y : Index} {now now' : Timestamp}
  {young spared spared' : Timestamp → Prop}

/-- The time of a message is that of the data, or that of the description. -/
structure IsTimed (o : ObjectBucket) (W : ObjectDates) (m : StoredMessage) : Prop where
  /-- A chunk has the date of its nuid. -/
  chunk : ∀ nuid, m.subject = o.chunkSubject nuid → m.timestamp = W nuid
  /-- A description has its own. -/
  description : ∀ d, o.IsDescription m d → m.timestamp = d.modified.toMicro

/-- A name is described as before, or its description was too old. -/
theorem newest_of_filter [DecidablePred young] (hx : o.Stocked x)
    (htimed : ∀ m ∈ x.toList, o.IsTimed W m)
    (hsorted : x.toList.Pairwise fun m w => young m.timestamp → young w.timestamp)
    (hy : y.toList = x.toList.filter fun m => decide (young m.timestamp)) (object : String) :
    (o.viewOf y).newest object = (o.viewOf x).newest object ∨
      (o.viewOf y).newest object = none ∧
        ∀ d ∈ (o.viewOf x).newest object, ¬young d.modified.toMicro := by
  -- Old messages stand in front, so the newest of a name goes last of all.
  have hlast : (y.ofSubject (o.descriptionSubject object)).getLast? =
      (x.ofSubject (o.descriptionSubject object)).getLast?.filter
        fun m => decide (young m.timestamp) := by
    rw [Index.ofSubject, hy, List.filter_comm]
    exact getLast?_filter_of_pairwise ((hsorted.filter _).imp (by simpa using ·))
  cases hm : (x.ofSubject (o.descriptionSubject object)).getLast? with
  | none =>
    rw [hm] at hlast
    exact .inl (by simp only [viewOf, hlast, hm]; rfl)
  | some m =>
    rw [hm, Option.filter_some] at hlast
    by_cases hyoung : young m.timestamp
    · rw [if_pos (decide_eq_true hyoung)] at hlast
      exact .inl (by simp only [viewOf, hlast, hm])
    · rw [if_neg (by simpa using hyoung)] at hlast
      refine .inr ⟨by simp only [viewOf, hlast]; rfl, fun d hd => ?_⟩
      obtain ⟨w, hw, hd, -⟩ := hx.newest_eq_some hd
      cases hm.symm.trans hw
      have hmem := (List.mem_filter.1 (List.mem_of_getLast? hm)).1
      rwa [← (htimed m hmem).description d hd]

/-- Chunks that are young enough are there. -/
theorem chunks_of_filter [DecidablePred young] (htimed : ∀ m ∈ x.toList, o.IsTimed W m)
    (hy : y.toList = x.toList.filter fun m => decide (young m.timestamp)) {nuid : String}
    (hyoung : young (W nuid)) : (o.viewOf y).chunks nuid = (o.viewOf x).chunks nuid := by
  have hsubject : y.ofSubject (o.chunkSubject nuid) = x.ofSubject (o.chunkSubject nuid) := by
    rw [Index.ofSubject, hy, List.filter_comm]
    refine List.filter_eq_self.2 fun m hm => decide_eq_true ?_
    obtain ⟨hmem, hsubject⟩ := List.mem_filter.1 hm
    rwa [(htimed m hmem).chunk nuid (of_decide_eq_true hsubject)]
  simp only [viewOf, hsubject]

/-- **What is left when messages get too old** is what is left of the same map. -/
theorem leftOf_of_filter [DecidablePred young] (hx : o.Stocked x)
    (htimed : ∀ m ∈ x.toList, o.IsTimed W m)
    (hsorted : x.toList.Pairwise fun m w => young m.timestamp → young w.timestamp)
    (hy : y.toList = x.toList.filter fun m => decide (young m.timestamp))
    (hspared : ∀ t, spared' t → spared t ∧ young t)
    (hlater : ∀ t u : Timestamp, spared' t → t.sinceEpoch ≤ u.sinceEpoch → spared' u)
    (hnow : now.sinceEpoch ≤ now'.sinceEpoch) (h : (o.viewOf x).LeftOf M W spared now) :
    (o.viewOf y).LeftOf M W spared' now' := by
  have hnewest := newest_of_filter hx htimed hsorted hy
  constructor
  · obtain ⟨M₀, v₀, hwithin, hkeeps, hfades⟩ := h.exists_keeps
    refine ⟨M₀.without fun name => (o.viewOf y).newest name = none,
      v₀.without fun name => (o.viewOf y).newest name = none,
      fun name z hz => hwithin name z (M₀.within_without _ name z hz), hkeeps.without _, ?_, ?_⟩
    · funext name
      rw [ObjectView.without]
      dsimp only
      split
      · next hgone => exact hgone
      · next hgone => rw [← hfades.newest_eq, (hnewest name).resolve_right fun h => hgone h.1]
    · intro nuid hnuid
      obtain ⟨hbefore, hyoung⟩ := hspared _ hnuid
      rw [chunks_of_filter htimed hy hyoung, hfades.chunks_eq nuid hbefore]
      refine (if_neg ?_).symm
      -- Chunks are not younger than the description that was too old.
      rintro ⟨name, hgone, d, hd, rfl⟩
      rw [← hfades.newest_eq] at hd
      rcases hnewest name with hsame | ⟨-, hold⟩
      · rw [← hsame, hgone] at hd
        cases hd
      · exact hold d hd (hspared _ (hlater _ _ hnuid (h.written_le name d hd).1)).2
  · intro name d hd
    rcases hnewest name with hsame | ⟨hnone, -⟩
    · obtain ⟨hwritten, hmodified⟩ := h.written_le name d (hsame ▸ hd)
      exact ⟨hwritten, Int.le_trans hmodified hnow⟩
    · rw [hnone] at hd
      cases hd

end ObjectBucket

end StreamBroker
