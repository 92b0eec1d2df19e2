import Mathlib.Logic.Function.Basic
import StreamBroker.ObjectBucket.Bucket

/-!
# What a bucket shows of its objects

A bucket shows the newest description of every name and the chunks of every nuid.  Operations work
on these two alone: a description comes and is the newest of its name, all descriptions of a name
go, chunks come and all chunks of a nuid go.  What is shown stands for a map of objects: objects are
described newest, their chunks are their data cut into pieces, and there is nothing else but the
descriptions of what was deleted.

## Main definitions

* `ObjectMap`: the objects of a bucket by their names
* `ObjectOp`, `ObjectMap.apply`: the operations on a bucket, and what they do to its objects
* `ObjectView`: what a bucket shows
* `ObjectView.Changes`: what an operation that ended does to what is shown
* `ObjectView.Keeps`: what is shown stands for a map of objects

## Main results

* `length_chunksOf`: how many chunks there are
* `ObjectView.Keeps.put`, `ObjectView.Keeps.relabel`, `ObjectView.Keeps.delete`,
  `ObjectView.Keeps.changes`: what operations do to what is shown, they do to the map
-/

namespace StreamBroker

/-! ## Chunks -/

/-- There are as many chunks as the data has of their size, rounded up. -/
theorem length_chunksOf {size : Nat} (hs : 0 < size) (octets : Bytes) :
    (chunksOf size octets).length = (octets.length + size - 1) / size := by
  fun_induction chunksOf size octets with
  | case1 octets h =>
    rcases h with h | h
    · rw [List.isEmpty_iff.1 h]
      exact (Nat.div_eq_of_lt (by simp; omega)).symm
    · omega
  | case2 octets h ih =>
    have hpos : 0 < octets.length := by
      rw [List.length_pos_iff]
      rintro rfl
      exact h (.inl rfl)
    rw [List.length_cons, ih, List.length_drop]
    -- The last chunk may be a short one.
    by_cases hle : size ≤ octets.length
    · rw [show octets.length + size - 1 = octets.length - size + size - 1 + size by omega,
        Nat.add_div_right _ hs]
    · rw [show octets.length - size + size - 1 = size - 1 by omega,
        show octets.length + size - 1 = octets.length - 1 + size by omega,
        Nat.add_div_right _ hs, Nat.div_eq_of_lt (by omega), Nat.div_eq_of_lt (by omega)]

/-- No chunk is empty, so there are no more of them than there are octets. -/
theorem length_chunksOf_le (size : Nat) (octets : Bytes) :
    (chunksOf size octets).length ≤ octets.length := by
  fun_induction chunksOf size octets with
  | case1 octets h => exact Nat.zero_le _
  | case2 octets h ih =>
    rw [not_or, List.isEmpty_iff, ← List.length_eq_zero_iff] at h
    rw [List.length_drop] at ih
    rw [List.length_cons]
    omega

/-- A source that fails has no more chunks than its octets. -/
theorem ObjectSource.length_chunks_le (source : ObjectSource) (size : Nat) :
    (source.chunks size).length ≤ (chunksOf size source.octets).length := by
  rw [chunks]
  cases source.failure with
  | none => exact Nat.le_refl _
  | some _ => exact List.length_filter_le _ _

/-! ## Maps of objects -/

/-- An object of a bucket. -/
structure StoredObject where
  /-- What is told of the object. -/
  description : ObjectDescription
  /-- The data of the object, as it was put. -/
  octets : Bytes
  /-- The size of chunks when the object was put. -/
  chunkSize : Nat
  deriving DecidableEq, Repr

/-- The objects of a bucket by their names. -/
abbrev ObjectMap := String → Option StoredObject

/-- An operation that changes a bucket. -/
inductive ObjectOp where
  | put (label : ObjectLabel) (source : ObjectSource)
  | updateLabel (object : String) (label : ObjectLabel)
  | delete (object : String)
  deriving DecidableEq, Repr

/-- The label that an operation sets. -/
def ObjectOp.label? : ObjectOp → Option ObjectLabel
  | put label _ | updateLabel _ label => some label
  | delete _ => none

namespace ObjectMap

/-- No objects. -/
def empty : ObjectMap := fun _ => none

/-- The objects with one that is described as told, in place of the one that has its name. -/
def set (M : ObjectMap) (x : StoredObject) : ObjectMap :=
  Function.update M x.description.name (some x)

/-- The objects without the one of a name. -/
def erase (M : ObjectMap) (object : String) : ObjectMap := Function.update M object none

/-- What an operation that was answered does to the objects.  A refusal changes nothing. -/
def apply (M : ObjectMap) (chunkSize : Nat) :
    ObjectOp → Except Error (Option ObjectDescription) → ObjectMap
  | .put _ source, .ok (some d) => M.set ⟨d, source.octets, chunkSize⟩
  | .updateLabel object _, .ok (some d) =>
    match M object with
    | some x => (M.erase object).set { x with description := d }
    | none => M
  | .delete object, .ok _ => M.erase object
  | _, _ => M

end ObjectMap

/-- An object has the name that it is found by, and is described as it is. -/
structure StoredObject.IsRight (x : StoredObject) (object : String) : Prop where
  /-- The description has the name. -/
  name_eq : x.description.name = object
  /-- The object was not deleted. -/
  live : x.description.deleted = false
  /-- The size is told. -/
  size_eq : x.description.size = x.octets.length
  /-- The number of chunks is told. -/
  chunks_eq : x.description.chunks = (chunksOf x.chunkSize x.octets).length
  /-- The digest is told. -/
  digest_eq : x.description.digest = objectDigest x.octets
  /-- The object is not too large to be put together. -/
  length_lt : x.octets.length < ObjectBucket.maxObjectSize
  /-- The data was cut into chunks. -/
  chunkSize_pos : 0 < x.chunkSize

/-! ## What is shown -/

/-- What a bucket shows of its objects. -/
@[ext] structure ObjectView where
  /-- The newest descriptions by their names. -/
  newest : String → Option ObjectDescription
  /-- The chunks by their nuids. -/
  chunks : String → List Bytes

namespace ObjectView

/-- Nothing is shown. -/
def empty : ObjectView := ⟨fun _ => none, fun _ => []⟩

/-- A description comes. -/
def describe (v : ObjectView) (d : ObjectDescription) : ObjectView :=
  { v with newest := Function.update v.newest d.name (some d) }

/-- The descriptions of a name go. -/
def forget (v : ObjectView) (object : String) : ObjectView :=
  { v with newest := Function.update v.newest object none }

/-- Chunks come. -/
def write (v : ObjectView) (nuid : String) (chunks : List Bytes) : ObjectView :=
  { v with chunks := Function.update v.chunks nuid (v.chunks nuid ++ chunks) }

/-- The chunks of a nuid go. -/
def drop (v : ObjectView) (nuid : String) : ObjectView :=
  { v with chunks := Function.update v.chunks nuid [] }

/-- The chunks of an older version go, if there is one. -/
def dropOld (v : ObjectView) : Option ObjectDescription → ObjectView
  | some old => v.drop old.nuid
  | none => v

/-- A nuid is not used yet. -/
structure Unused (v : ObjectView) (nuid : String) : Prop where
  /-- No chunk is found by it. -/
  chunks_eq : v.chunks nuid = []
  /-- No description tells it. -/
  newest_ne : ∀ object, ∀ d ∈ v.newest object, d.nuid ≠ nuid

/-- What an operation that ended does to what is shown, with a size of chunks, a nuid for data and
at a time.  A refusal changes nothing. -/
inductive Changes (v : ObjectView) (chunkSize : Nat) (nuid : String) (now : Timestamp) :
    ObjectOp → Except Error (Option ObjectDescription) → ObjectView → Prop where
  | refused (op : ObjectOp) (e : Error) : Changes v chunkSize nuid now op (.error e) v
  /-- The data comes with a nuid that is not used yet, and its description; an older one goes. -/
  | put {label : ObjectLabel} {source : ObjectSource} {d : ObjectDescription}
      (hnuid : d.nuid = nuid) (hunused : v.Unused d.nuid)
      (hright : (⟨d, source.octets, chunkSize⟩ : StoredObject).IsRight d.name)
      (hlabel : d.label = label) (hmodified : d.modified = now) :
      Changes v chunkSize nuid now (.put label source) (.ok (some d))
        (((v.write d.nuid (chunksOf chunkSize source.octets)).describe d).dropOld (v.newest d.name))
  /-- The object is described anew; if it has another name then, all goes that was described by the
  old one. -/
  | relabelled {object : String} {label : ObjectLabel} {current d : ObjectDescription}
      (hcurrent : current ∈ v.newest object) (hlive : current.deleted = false)
      (hd : d = { current with
        name := label.name, description := label.description, modified := now })
      (hfree : d.name ≠ object → ∀ e ∈ v.newest d.name, e.deleted = true) :
      Changes v chunkSize nuid now (.updateLabel object label) (.ok (some d))
        (if d.name = object then v.describe d else (v.describe d).forget object)
  /-- The object is described as deleted, and its chunks go. -/
  | deleted {object : String} {current d : ObjectDescription} (hcurrent : current ∈ v.newest object)
      (hlive : current.deleted = false) (hname : d.name = object) (hnuid : d.nuid = current.nuid)
      (hdeleted : d.deleted = true) (hmodified : d.modified = now) :
      Changes v chunkSize nuid now (.delete object) (.ok none) ((v.describe d).drop current.nuid)

/-- What is shown stands for a map of objects: they are described newest and their chunks are there,
and beside them there are only the descriptions of what was deleted. -/
structure Keeps (v : ObjectView) (M : ObjectMap) : Prop where
  /-- Objects are described as they are. -/
  right : ∀ object, ∀ x ∈ M object, x.IsRight object
  /-- Objects are described newest. -/
  newest_eq : ∀ object, ∀ x ∈ M object, v.newest object = some x.description
  /-- The chunks of an object are there. -/
  chunks_eq : ∀ object, ∀ x ∈ M object,
    v.chunks x.description.nuid = chunksOf x.chunkSize x.octets
  /-- What is described beside the objects was deleted. -/
  deleted : ∀ object, M object = none → ∀ d ∈ v.newest object, d.deleted = true ∧ d.name = object
  /-- No two names have descriptions of one nuid. -/
  apart : ∀ object other, ∀ d ∈ v.newest object, ∀ e ∈ v.newest other,
    d.nuid = e.nuid → object = other
  /-- Chunks are those of an object. -/
  owned : ∀ nuid, v.chunks nuid ≠ [] → ∃ object, ∃ x ∈ M object, x.description.nuid = nuid

variable {v w : ObjectView} {M : ObjectMap} {d : ObjectDescription} {x : StoredObject}
  {object nuid : String} {chunkSize : Nat} {now : Timestamp} {op : ObjectOp}
  {reply : Except Error (Option ObjectDescription)}

theorem write_nil (v : ObjectView) (nuid : String) : v.write nuid [] = v :=
  ObjectView.ext rfl (Function.update_eq_self_iff.2 (List.append_nil _))

theorem write_write (v : ObjectView) (nuid : String) (cs ds : List Bytes) :
    (v.write nuid cs).write nuid ds = v.write nuid (cs ++ ds) := by
  simp only [write, Function.update_self, Function.update_idem, List.append_assoc]

theorem drop_write (h : v.chunks nuid = []) (chunks : List Bytes) :
    (v.write nuid chunks).drop nuid = v := by
  refine ObjectView.ext rfl ?_
  simp only [drop, write, Function.update_idem]
  exact Function.update_eq_self_iff.2 h.symm

/-- An operation sets the label that it is given. -/
theorem Changes.label_eq (h : v.Changes chunkSize nuid now op reply w) :
    ∀ d, reply = .ok d → d.map ObjectDescription.label = op.label? := by
  rintro d rfl
  cases h with
  | put hnuid hunused hright hlabel hmodified => exact congrArg some hlabel
  | relabelled hcurrent hlive hd hfree => exact hd ▸ rfl
  | deleted => rfl

namespace Keeps

theorem empty : ObjectView.empty.Keeps .empty where
  right _ _ h := by cases h
  newest_eq _ _ h := by cases h
  chunks_eq _ _ h := by cases h
  deleted _ _ _ h := by cases h
  apart _ _ _ h := by cases h
  owned _ h := absurd rfl h

/-- An object that is described in a view is described by the view's newest description. -/
theorem nuid_ne (h : v.Keeps M) {other : String} {y : StoredObject} (hy : y ∈ M other)
    (hd : d ∈ v.newest object) (hne : other ≠ object) : y.description.nuid ≠ d.nuid :=
  fun heq => hne (h.apart _ _ _ (h.newest_eq _ _ hy) _ hd heq)

/-- An object takes the place of what was described before by its name. -/
theorem replace (h : v.Keeps M) (hnuid : v.Unused x.description.nuid)
    (hx : x.IsRight x.description.name) {w : ObjectView}
    (hnewest : w.newest = Function.update v.newest x.description.name (some x.description))
    (hown : w.chunks x.description.nuid = chunksOf x.chunkSize x.octets)
    (hold : ∀ d ∈ v.newest x.description.name, w.chunks d.nuid = [])
    (hothers : ∀ nuid, nuid ≠ x.description.nuid →
      (∀ d ∈ v.newest x.description.name, nuid ≠ d.nuid) → w.chunks nuid = v.chunks nuid) :
    w.Keeps (M.set x) := by
  have hset (object : String) : (M.set x) object =
      if object = x.description.name then some x else M object :=
    Function.update_apply M _ _ _
  have hshown (object : String) : w.newest object =
      if object = x.description.name then some x.description else v.newest object := by
    rw [hnewest, Function.update_apply]
  exact {
    right := by
      intro object y hy
      rw [hset] at hy
      split at hy
      · next hobject =>
        cases hy
        exact hobject ▸ hx
      · exact h.right _ _ hy
    newest_eq := by
      intro object y hy
      rw [hset] at hy
      rw [hshown]
      split at hy
      · next hobject =>
        cases hy
        exact if_pos hobject
      · next hobject =>
        rw [if_neg hobject]
        exact h.newest_eq _ _ hy
    chunks_eq := by
      intro object y hy
      rw [hset] at hy
      split at hy
      · cases hy
        exact hown
      · next hobject =>
        rw [hothers _ (hnuid.newest_ne _ _ (h.newest_eq _ _ hy))
          fun d hd => h.nuid_ne hy hd hobject]
        exact h.chunks_eq _ _ hy
    deleted := by
      intro object hM d hd
      rw [hset] at hM
      rw [hshown] at hd
      split at hM
      · cases hM
      · next hobject =>
        rw [if_neg hobject] at hd
        exact h.deleted _ hM _ hd
    -- Nothing was described by the new nuid before.
    apart := by
      intro object other d hd e he heq
      rw [hshown] at hd he
      split at hd
      · next hobject =>
        cases hd
        split at he
        · next hother => exact hobject.trans hother.symm
        · exact absurd heq.symm (hnuid.newest_ne _ _ he)
      · split at he
        · cases he
          exact absurd heq (hnuid.newest_ne _ _ hd)
        · exact h.apart _ _ _ hd _ he heq
    owned := by
      intro nuid hchunks
      by_cases hself : nuid = x.description.nuid
      · exact ⟨x.description.name, x, (hset _).trans (if_pos rfl), hself.symm⟩
      · -- What is left was not that of an older version, so it is another object's.
        have hne : ∀ d ∈ v.newest x.description.name, nuid ≠ d.nuid := by
          rintro d hd rfl
          exact hchunks (hold d hd)
        rw [hothers _ hself hne] at hchunks
        obtain ⟨object, y, hy, rfl⟩ := h.owned _ hchunks
        have hobject : object ≠ x.description.name := by
          rintro rfl
          exact hne _ (h.newest_eq _ _ hy) rfl
        exact ⟨object, y, (hset _).trans ((if_neg hobject).trans hy), rfl⟩ }

/-- **An object is put.**  Its chunks come with a nuid that is not used yet, and its description;
then the chunks go of what was described before by its name. -/
theorem put (h : v.Keeps M) (hnuid : v.Unused x.description.nuid)
    (hx : x.IsRight x.description.name) :
    (((v.write x.description.nuid (chunksOf x.chunkSize x.octets)).describe
      x.description).dropOld (v.newest x.description.name)).Keeps (M.set x) := by
  have hown : (v.write x.description.nuid (chunksOf x.chunkSize x.octets)).chunks
      x.description.nuid = chunksOf x.chunkSize x.octets := by
    simp only [write, Function.update_self, hnuid.chunks_eq, List.nil_append]
  cases hold : v.newest x.description.name with
  | none =>
    refine h.replace hnuid hx rfl hown (fun d hd => ?_) fun nuid hne _ => ?_
    · rw [hold] at hd
      cases hd
    · exact Function.update_of_ne hne _ _
  | some old =>
    -- The chunks that go are those of the object before, whose nuid is another.
    have hne := hnuid.newest_ne _ _ hold
    refine h.replace hnuid hx rfl ?_ (fun d hd => ?_) fun nuid hnuid hnuid' => ?_
    · exact (Function.update_of_ne hne.symm _ _).trans hown
    · rw [hold] at hd
      cases hd
      exact Function.update_self ..
    · exact (Function.update_of_ne (hnuid' _ hold) _ _).trans (Function.update_of_ne hnuid _ _)

/-- The nuid of an object goes over to its new description, which takes the place of the old one. -/
theorem apart_of_shown (h : v.Keeps M) (hx : x ∈ M object) (hnuid : d.nuid = x.description.nuid)
    {w : ObjectView} (hshown : ∀ other, w.newest other =
      if other = d.name then some d else if other = object then none else v.newest other)
    (other another : String) (e : ObjectDescription) (he : e ∈ w.newest other)
    (f : ObjectDescription) (hf : f ∈ w.newest another) (heq : e.nuid = f.nuid) :
    other = another := by
  -- Only the object was described by its nuid before.
  have hothers {name : String} {e : ObjectDescription} (hne : name ≠ object)
      (he : e ∈ v.newest name) : e.nuid ≠ d.nuid := fun heq =>
    hne (h.apart _ _ _ he _ (h.newest_eq _ _ hx) (heq.trans hnuid))
  rw [hshown] at he hf
  split at he
  · next hother =>
    cases he
    split at hf
    · next hanother => exact hother.trans hanother.symm
    · split at hf
      · cases hf
      · next hne => exact absurd heq.symm (hothers hne hf)
  · split at he
    · cases he
    · next hne =>
      split at hf
      · cases hf
        exact absurd heq (hothers hne he)
      · split at hf
        · cases hf
        · exact h.apart _ _ _ he _ hf heq

/-- **An object gets another name and remark.**  It is described anew; if it has another name then,
which no other object has, all goes that was described by the old one. -/
theorem relabel (h : v.Keeps M) (hx : x ∈ M object) (hnuid : d.nuid = x.description.nuid)
    (hright : ({ x with description := d } : StoredObject).IsRight d.name)
    (hfree : d.name ≠ object → M d.name = none) :
    (if d.name = object then v.describe d else (v.describe d).forget object).Keeps
      ((M.erase object).set { x with description := d }) := by
  have hset (other : String) : ((M.erase object).set { x with description := d }) other =
      if other = d.name then some { x with description := d }
      else if other = object then none else M other := by
    simp only [ObjectMap.set, ObjectMap.erase, Function.update_apply]
  have hshown (other : String) :
      (if d.name = object then v.describe d else (v.describe d).forget object).newest other =
        if other = d.name then some d else if other = object then none else v.newest other := by
    split
    · next hname =>
      simp only [describe, Function.update_apply, hname]
      split <;> rfl
    · next hname =>
      simp only [describe, forget, Function.update_apply]
      by_cases hother : other = object
      · rw [if_pos hother, if_neg fun heq => hname (heq.symm.trans hother), if_pos hother]
      · rw [if_neg hother, if_neg hother]
  have hkept : (if d.name = object then v.describe d
      else (v.describe d).forget object).chunks = v.chunks := by
    split <;> rfl
  exact {
    right := by
      intro other y hy
      rw [hset] at hy
      split at hy
      · next hother =>
        cases hy
        exact hother ▸ hright
      · split at hy
        · cases hy
        · exact h.right _ _ hy
    newest_eq := by
      intro other y hy
      rw [hset] at hy
      rw [hshown]
      split at hy
      · next hother =>
        cases hy
        exact if_pos hother
      · next hother =>
        split at hy
        · cases hy
        · next hobject =>
          rw [if_neg hother, if_neg hobject]
          exact h.newest_eq _ _ hy
    chunks_eq := by
      intro other y hy
      rw [hset] at hy
      rw [hkept]
      split at hy
      · cases hy
        rw [hnuid]
        exact h.chunks_eq _ _ hx
      · split at hy
        · cases hy
        · exact h.chunks_eq _ _ hy
    deleted := by
      intro other hM e he
      rw [hset] at hM
      rw [hshown] at he
      split at hM
      · cases hM
      · next hother =>
        rw [if_neg hother] at he
        split at he
        · cases he
        · next hobject =>
          rw [if_neg hobject] at hM
          exact h.deleted _ hM _ he
    apart := h.apart_of_shown hx hnuid hshown
    owned := by
      intro nuid hchunks
      rw [hkept] at hchunks
      obtain ⟨other, y, hy, rfl⟩ := h.owned _ hchunks
      -- The object keeps its chunks under its new name; nobody had that name before.
      by_cases hobject : other = object
      · subst hobject
        cases hx.symm.trans hy
        exact ⟨d.name, { x with description := d }, (hset _).trans (if_pos rfl), hnuid⟩
      · have hname : other ≠ d.name := by
          rintro rfl
          cases (hfree hobject).symm.trans hy
        exact ⟨other, y, (hset _).trans ((if_neg hname).trans ((if_neg hobject).trans hy)), rfl⟩ }

/-- **An object is deleted.**  It is described as deleted, and its chunks go. -/
theorem delete (h : v.Keeps M) (hx : x ∈ M object) (hname : d.name = object)
    (hnuid : d.nuid = x.description.nuid) (hdeleted : d.deleted = true) :
    ((v.describe d).drop x.description.nuid).Keeps (M.erase object) := by
  have herase (other : String) :
      (M.erase object) other = if other = object then none else M other :=
    Function.update_apply M _ _ _
  have hshown (other : String) : ((v.describe d).drop x.description.nuid).newest other =
      if other = object then some d else v.newest other := by
    simp only [describe, drop, Function.update_apply, hname]
  have hleft (nuid : String) : ((v.describe d).drop x.description.nuid).chunks nuid =
      if nuid = x.description.nuid then [] else v.chunks nuid :=
    Function.update_apply ..
  have hdescribed := h.newest_eq _ _ hx
  have hkept {other : String} {y : StoredObject} (hy : y ∈ (M.erase object) other) :
      other ≠ object ∧ y ∈ M other := by
    rw [herase] at hy
    split at hy
    · cases hy
    · next hother => exact ⟨hother, hy⟩
  exact {
    right := fun other y hy => h.right _ _ (hkept hy).2
    newest_eq := by
      intro other y hy
      rw [hshown, if_neg (hkept hy).1]
      exact h.newest_eq _ _ (hkept hy).2
    chunks_eq := by
      intro other y hy
      rw [hleft, if_neg (h.nuid_ne (hkept hy).2 hdescribed (hkept hy).1)]
      exact h.chunks_eq _ _ (hkept hy).2
    deleted := by
      intro other hM e he
      rw [hshown] at he
      split at he
      · next hother =>
        cases he
        exact ⟨hdeleted, hname.trans hother.symm⟩
      · next hother =>
        rw [herase, if_neg hother] at hM
        exact h.deleted _ hM _ he
    apart := by
      refine h.apart_of_shown hx hnuid fun other => ?_
      rw [hshown, hname]
      split <;> rfl
    owned := by
      intro nuid hchunks
      rw [hleft] at hchunks
      split at hchunks
      · exact absurd rfl hchunks
      · next hne =>
        obtain ⟨other, y, hy, rfl⟩ := h.owned _ hchunks
        have hother : other ≠ object := by
          rintro rfl
          cases hx.symm.trans hy
          exact hne rfl
        exact ⟨other, y, (herase _).trans ((if_neg hother).trans hy), rfl⟩ }

/-- What is described and not deleted is an object. -/
theorem exists_object (h : v.Keeps M) (hd : d ∈ v.newest object) (hlive : d.deleted = false) :
    ∃ x ∈ M object, x.description = d := by
  cases hx : M object with
  | none =>
    rw [(h.deleted object hx d hd).1] at hlive
    cases hlive
  | some x =>
    rw [Option.mem_def, h.newest_eq object x hx, Option.some.injEq] at hd
    exact ⟨x, rfl, hd⟩

/-- **What an operation does to what is shown, it does to the map.** -/
theorem changes (h : v.Keeps M) (hchanges : v.Changes chunkSize nuid now op reply w) :
    w.Keeps (M.apply chunkSize op reply) := by
  cases hchanges with
  | refused op e => cases op <;> exact h
  | @put label source d hnuid hunused hright hlabel hmodified =>
    exact h.put (x := ⟨d, source.octets, chunkSize⟩) hunused hright
  | @relabelled object label current d hcurrent hlive hd hfree =>
    obtain ⟨x, hx, rfl⟩ := h.exists_object hcurrent hlive
    have hright := h.right object x hx
    have hanew : ({ x with description := d } : StoredObject).IsRight d.name :=
      ⟨rfl, hd ▸ hright.live, hd ▸ hright.size_eq, hd ▸ hright.chunks_eq, hd ▸ hright.digest_eq,
        hright.length_lt, hright.chunkSize_pos⟩
    have hrelabel := h.relabel hx (hd ▸ rfl) hanew fun hne => by
      cases hother : M d.name with
      | none => rfl
      | some y =>
        -- The name is free, so what is described by it is deleted, and no object has it.
        have hdeleted := hfree hne _ (h.newest_eq _ y hother)
        rw [(h.right _ y hother).live] at hdeleted
        cases hdeleted
    simp only [ObjectMap.apply, Option.mem_def.1 hx]
    exact hrelabel
  | deleted hcurrent hlive hname hnuid hdeleted hmodified =>
    obtain ⟨x, hx, rfl⟩ := h.exists_object hcurrent hlive
    exact h.delete hx hname hnuid hdeleted

end Keeps

end ObjectView

end StreamBroker
