import StreamBroker.Proofs.Subject.Literal

/-!
# The comparisons of patterns are exact

Two patterns overlap when some subject is among those of both, and one is a subset of the other when
every subject of the first is a subject of the second.  Both comparisons go through the tokens of
two patterns and never see a subject, so it has to be shown that they say what they are for.

A subject that two patterns share is put together from the tokens of both: where one of them has a
wildcard the other one says which token stands there.  A subject that tells two patterns apart is
put together from the tokens of the first, with a token in front of the first difference that the
second does not allow.  Either needs patterns that were checked: the wildcard for the rest stands
nowhere but at the end, and what is no wildcard is a token that a subject may have.

## Main definitions

* `Token.IsLiteral`: a token that a subject may have
* `ArePattern`: the tokens that a pattern may have
* `AreShared`, `AreSeparating`: the tokens of a subject that is among those of two patterns, or of
  one and not of the other

## Main results

* `exists_shared`: the tokens that overlapping patterns share
* `exists_separating`: the tokens that tell a pattern apart from one it is no subset of
* `patternsOverlap_iff`: patterns overlap exactly if they share a subject
* `patternIsSubset_iff`: a pattern is a subset exactly if its subjects are subjects of the other
-/

namespace StreamBroker

variable {s t p q : Token} {ss ts ps qs : List Token}

/-! ## Tokens of subjects -/

theorem Token.star_ne_rest : Token.star ≠ Token.rest := by decide

/-- A token that a subject may have. -/
structure Token.IsLiteral (t : Token) : Prop where
  check : checkLiteral t = .ok ()
  dotless : '.' ∉ t

namespace Token.IsLiteral

theorem ne_star (h : t.IsLiteral) : t ≠ Token.star :=
  ne_star_of_checkLiteral h.check

theorem ne_rest (h : t.IsLiteral) : t ≠ Token.rest :=
  ne_rest_of_checkLiteral h.check

/-- The token that stands in for a wildcard where any token will do. -/
theorem single : IsLiteral ['x'] :=
  ⟨rfl, by decide⟩

/-- A longer token may stand wherever a token may, and is another one. -/
theorem cons (h : t.IsLiteral) : IsLiteral ('x' :: t) where
  check := by
    refine checkLiteral_eq_ok_iff.2 ⟨List.cons_ne_nil _ _, ?_⟩
    rw [List.forall_mem_cons]
    exact ⟨by decide, (checkLiteral_eq_ok_iff.1 h.check).2⟩
  dotless := by simpa using h.dotless

end Token.IsLiteral

/-- Literal tokens are those of a subject. -/
theorem exists_subject (hne : ss ≠ []) (h : ∀ s ∈ ss, s.IsLiteral) :
    ∃ subject, checkSubject subject = .ok () ∧ tokens subject = ss := by
  have htokens : tokens (String.ofList (Token.join ss)) = ss := by
    rw [tokens, String.toList_ofList, Token.split_join hne fun s hs => (h s hs).dotless]
  refine ⟨_, checkSubject_eq_ok_iff.2 fun t ht => ?_, htokens⟩
  rw [htokens] at ht
  exact (h t ht).check

/-! ## Tokens of patterns -/

/-- The tokens that a pattern may have: the wildcard for the rest stands at the end. -/
inductive ArePattern : List Token → Prop where
  | nil : ArePattern []
  | rest : ArePattern [Token.rest]
  | star {ps : List Token} : ArePattern ps → ArePattern (Token.star :: ps)
  | literal {p : Token} {ps : List Token} :
      p.IsLiteral → ArePattern ps → ArePattern (p :: ps)

theorem arePattern_of_checkPatternTokens (h : checkPatternTokens ps = .ok ())
    (hdots : ∀ p ∈ ps, '.' ∉ p) : ArePattern ps := by
  induction ps with
  | nil => exact .nil
  | cons p ps ih =>
    rw [List.forall_mem_cons] at hdots
    rw [checkPatternTokens] at h
    split at h
    · next hrest =>
      split at h
      · -- Nothing may stand behind a rest.
        next hempty =>
        rw [beq_iff_eq.1 hrest, List.isEmpty_iff.1 hempty]
        exact .rest
      · cases h
    · split at h
      · next hstar =>
        rw [beq_iff_eq.1 hstar]
        exact .star (ih h hdots.2)
      · obtain ⟨⟨⟩, hliteral, h⟩ := except_bind_eq_ok.1 h
        exact .literal ⟨hliteral, hdots.1⟩ (ih h hdots.2)

theorem arePattern_tokens {pattern : String} (h : checkPattern pattern = .ok ()) :
    ArePattern (tokens pattern) := by
  rw [checkPattern] at h
  split at h
  · cases h
  · exact arePattern_of_checkPatternTokens h fun _ => Token.dot_notMem_of_mem_split

theorem tokensMatch_literal (h : p.IsLiteral) :
    tokensMatch (s :: ss) (p :: ps) = (p == s && tokensMatch ss ps) := by
  rw [tokensMatch, if_neg (by simpa using h.ne_rest), if_neg (by simpa using h.ne_star)]
  cases p == s <;> rfl

theorem tokensMatch_front (hs : s.IsLiteral) (hp : p = Token.star ∨ p = s)
    (h : tokensMatch ss ps = true) : tokensMatch (s :: ss) (p :: ps) = true := by
  rcases hp with rfl | rfl
  · exact h
  · rw [tokensMatch_literal hs, beq_self_eq_true, Bool.true_and, h]

/-- A pattern stands for no subject without tokens. -/
theorem ne_nil_of_tokensMatch {pattern : String} (h : tokensMatch ss (tokens pattern) = true) :
    ss ≠ [] := by
  rintro rfl
  cases htokens : tokens pattern with
  | nil => exact Token.split_ne_nil _ htokens
  | cons p ps =>
    rw [htokens] at h
    cases h

/-- A token that a token of a pattern stands for. -/
def Token.sample (p : Token) : Token :=
  if p = Token.star ∨ p = Token.rest then ['x'] else p

theorem Token.IsLiteral.sample_eq (h : p.IsLiteral) : p.sample = p :=
  if_neg (not_or.2 ⟨h.ne_star, h.ne_rest⟩)

theorem isLiteral_of_mem_sample (h : ArePattern ps) :
    ∀ s ∈ ps.map Token.sample, s.IsLiteral := by
  induction h with
  | nil => simp
  | rest =>
    rw [List.map_singleton, List.forall_mem_singleton]
    exact .single
  | star _ ih =>
    rw [List.map_cons, List.forall_mem_cons]
    exact ⟨.single, ih⟩
  | literal hp _ ih =>
    rw [List.map_cons, List.forall_mem_cons, hp.sample_eq]
    exact ⟨hp, ih⟩

/-- A pattern stands for the subject in which every wildcard stands for one token. -/
theorem tokensMatch_sample (h : ArePattern ps) : tokensMatch (ps.map Token.sample) ps = true := by
  induction h with
  | nil => rfl
  | rest => rfl
  | star _ ih => exact ih
  | literal hp _ ih =>
    rw [List.map_cons, hp.sample_eq, tokensMatch_literal hp, beq_self_eq_true, Bool.true_and, ih]

/-! ## Patterns that overlap -/

/-- Where neither is the wildcard for the rest, one of two tokens covers the other, and what is
behind them overlaps. -/
theorem tokensOverlap_cons (h : tokensOverlap (p :: ps) (q :: qs) = true)
    (hp : p ≠ Token.rest) (hq : q ≠ Token.rest) :
    (p = Token.star ∨ q = Token.star ∨ p = q) ∧ tokensOverlap ps qs = true := by
  rw [tokensOverlap, if_neg (by simpa using ⟨hp, hq⟩)] at h
  split at h
  · next hstar =>
    rw [Bool.or_eq_true, beq_iff_eq, beq_iff_eq] at hstar
    exact ⟨hstar.imp_right .inl, h⟩
  · split at h
    · next heq => exact ⟨.inr (.inr (beq_iff_eq.1 heq)), h⟩
    · cases h

/-- The tokens of a subject that is among those of two patterns. -/
structure AreShared (ss ps qs : List Token) : Prop where
  literal : ∀ s ∈ ss, s.IsLiteral
  left : tokensMatch ss ps = true
  right : tokensMatch ss qs = true

namespace AreShared

theorem symm (h : AreShared ss ps qs) : AreShared ss qs ps :=
  ⟨h.literal, h.right, h.left⟩

/-- The wildcard for the rest stands for whatever another pattern stands for. -/
theorem rest (h : ArePattern (p :: ps)) :
    AreShared ((p :: ps).map Token.sample) [Token.rest] (p :: ps) :=
  ⟨isLiteral_of_mem_sample h, rfl, tokensMatch_sample h⟩

/-- A literal token stands in front of what two patterns share if both allow it there. -/
theorem cons (h : AreShared ss ps qs) (hs : s.IsLiteral)
    (hp : p = Token.star ∨ p = s) (hq : q = Token.star ∨ q = s) :
    AreShared (s :: ss) (p :: ps) (q :: qs) where
  literal := List.forall_mem_cons.2 ⟨hs, h.literal⟩
  left := tokensMatch_front hs hp h.left
  right := tokensMatch_front hs hq h.right

end AreShared

/-- **Patterns that overlap share a subject**: where one has a wildcard the other one says what
stands there. -/
theorem exists_shared (hp : ArePattern ps) (hq : ArePattern qs)
    (h : tokensOverlap ps qs = true) : ∃ ss, AreShared ss ps qs := by
  induction hp generalizing qs with
  | nil =>
    cases hq with
    | nil => exact ⟨[], by simp, rfl, rfl⟩
    | _ => cases h
  | rest =>
    cases qs with
    | nil => cases h
    | cons q qs => exact ⟨_, .rest hq⟩
  | star hps ih =>
    cases hq with
    | nil => cases h
    -- A rest shares with every pattern that has a token left.
    | rest => exact ⟨_, (AreShared.rest (.star hps)).symm⟩
    | star hqs =>
      obtain ⟨ss, hss⟩ := ih hqs h
      exact ⟨_, hss.cons .single (.inl rfl) (.inl rfl)⟩
    | literal hq hqs =>
      obtain ⟨-, h⟩ := tokensOverlap_cons h Token.star_ne_rest hq.ne_rest
      obtain ⟨ss, hss⟩ := ih hqs h
      exact ⟨_, hss.cons hq (.inl rfl) (.inr rfl)⟩
  | literal hp hps ih =>
    cases hq with
    | nil => cases h
    | rest => exact ⟨_, (AreShared.rest (.literal hp hps)).symm⟩
    | star hqs =>
      obtain ⟨-, h⟩ := tokensOverlap_cons h hp.ne_rest Token.star_ne_rest
      obtain ⟨ss, hss⟩ := ih hqs h
      exact ⟨_, hss.cons hp (.inr rfl) (.inl rfl)⟩
    | literal hq hqs =>
      obtain ⟨hcovers, h⟩ := tokensOverlap_cons h hp.ne_rest hq.ne_rest
      have heq := (hcovers.resolve_left hp.ne_star).resolve_left hq.ne_star
      obtain ⟨ss, hss⟩ := ih hqs h
      exact ⟨_, hss.cons hp (.inr rfl) (.inr heq.symm)⟩

/-- A subject of two patterns that overlap. -/
theorem exists_subject_of_patternsOverlap {a b : String} (ha : checkPattern a = .ok ())
    (hb : checkPattern b = .ok ()) (h : patternsOverlap a b = true) :
    ∃ subject, checkSubject subject = .ok () ∧ subjectMatches subject a = true ∧
      subjectMatches subject b = true := by
  obtain ⟨ss, hss⟩ := exists_shared (arePattern_tokens ha) (arePattern_tokens hb) h
  obtain ⟨subject, hsubject, rfl⟩ := exists_subject (ne_nil_of_tokensMatch hss.left) hss.literal
  exact ⟨subject, hsubject, hss.left, hss.right⟩

/-- **Patterns overlap exactly if they share a subject.** -/
theorem patternsOverlap_iff {a b : String} (ha : checkPattern a = .ok ())
    (hb : checkPattern b = .ok ()) : patternsOverlap a b = true ↔
      ∃ subject, checkSubject subject = .ok () ∧ subjectMatches subject a = true ∧
        subjectMatches subject b = true := by
  constructor
  · exact exists_subject_of_patternsOverlap ha hb
  · rintro ⟨subject, -, hleft, hright⟩
    exact patternsOverlap_of_subjectMatches hleft hright

/-- With wildcards in different places two patterns share subjects of three tokens, and they share
none if one of them allows two tokens only. -/
theorem shared_by_events :
    (∃ subject, checkSubject subject = .ok () ∧ subjectMatches subject "events.us.>" = true ∧
      subjectMatches subject "events.*.page_loaded" = true) ∧
    ¬ ∃ subject, checkSubject subject = .ok () ∧ subjectMatches subject "events.us.>" = true ∧
      subjectMatches subject "events.*" = true :=
  ⟨(patternsOverlap_iff rfl rfl).1 (by decide), mt (patternsOverlap_iff rfl rfl).2 (by decide)⟩

/-! ## Patterns that are subsets -/

/-- The wildcard for one token covers every token. -/
theorem tokensSubset_star (h : p ≠ Token.rest) :
    tokensSubset (p :: ps) (Token.star :: qs) = tokensSubset ps qs := by
  rw [tokensSubset, if_neg (by simpa using Token.star_ne_rest), if_neg (by simpa using h)]
  split <;> rfl

/-- A literal token covers itself only. -/
theorem tokensSubset_literal (hp : p.IsLiteral) (hq : q.IsLiteral) :
    tokensSubset (p :: ps) (q :: qs) = (p == q && tokensSubset ps qs) := by
  rw [tokensSubset, if_neg (by simpa using hq.ne_rest), if_neg (by simpa using hp.ne_rest),
    if_neg (by simpa using hp.ne_star), if_neg (by simpa using hq.ne_star)]
  cases p == q <;> rfl

/-- The tokens of a subject that is among those of one pattern and not of another. -/
structure AreSeparating (ss ps qs : List Token) : Prop where
  literal : ∀ s ∈ ss, s.IsLiteral
  inside : tokensMatch ss ps = true
  outside : tokensMatch ss qs = false

namespace AreSeparating

/-- What tells two patterns apart still does behind a token that both allow. -/
theorem cons (h : AreSeparating ss ps qs) (hs : s.IsLiteral) (hp : p = Token.star ∨ p = s)
    (hq : q ≠ Token.rest) : AreSeparating (s :: ss) (p :: ps) (q :: qs) where
  literal := List.forall_mem_cons.2 ⟨hs, h.literal⟩
  inside := tokensMatch_front hs hp h.inside
  outside := by
    rw [Bool.eq_false_iff]
    intro hmatch
    exact Bool.eq_false_iff.1 h.outside (tokensMatch_cons hmatch hq).2

/-- A token that the other pattern does not allow in front tells the two apart. -/
theorem front (h : ArePattern ps) (hs : s.IsLiteral) (hp : p = Token.star ∨ p = s)
    (hq : q.IsLiteral) (hne : q ≠ s) :
    AreSeparating (s :: ps.map Token.sample) (p :: ps) (q :: qs) where
  literal := List.forall_mem_cons.2 ⟨hs, isLiteral_of_mem_sample h⟩
  inside := tokensMatch_front hs hp (tokensMatch_sample h)
  outside := by rw [tokensMatch_literal hq, beq_eq_false_iff_ne.2 hne, Bool.false_and]

end AreSeparating

/-- Nothing but the wildcard for the rest stands for all that it stands for: a pattern that begins
with a literal token leaves out those that begin otherwise, and one that begins with a wildcard for
one token leaves out those of another length. -/
theorem exists_separating_rest (hq : ArePattern qs) (hrest : qs ≠ [Token.rest]) :
    ∃ ss, AreSeparating ss [Token.rest] qs := by
  have hone : ∀ s ∈ [['x']], Token.IsLiteral s := by simp [Token.IsLiteral.single]
  cases hq with
  | nil => exact ⟨[['x']], hone, rfl, rfl⟩
  | rest => exact absurd rfl hrest
  | @star qs _ =>
    cases qs with
    | nil => exact ⟨[['x'], ['x']], by simp [Token.IsLiteral.single], rfl, rfl⟩
    | cons q qs => exact ⟨[['x']], hone, rfl, rfl⟩
  | literal hq _ =>
    refine ⟨[_], by simpa using hq.cons, rfl, ?_⟩
    rw [tokensMatch_literal hq, beq_eq_false_iff_ne.2 (List.cons_ne_self _ _).symm, Bool.false_and]

/-- **A pattern that is no subset stands for a subject that the other one does not stand for.** -/
theorem exists_separating (hp : ArePattern ps) (hq : ArePattern qs)
    (h : tokensSubset ps qs = false) : ∃ ss, AreSeparating ss ps qs := by
  induction hp generalizing qs with
  | nil =>
    cases hq with
    | nil => cases h
    | _ => exact ⟨[], by simp, rfl, rfl⟩
  | rest =>
    refine exists_separating_rest hq ?_
    rintro rfl
    cases h
  | star hps ih =>
    cases hq with
    | nil =>
      exact ⟨_, isLiteral_of_mem_sample (.star hps), tokensMatch_sample (.star hps), rfl⟩
    | rest => cases h
    | star hqs =>
      obtain ⟨ss, hss⟩ := ih hqs h
      exact ⟨_, hss.cons .single (.inl rfl) Token.star_ne_rest⟩
    | literal hq hqs =>
      exact ⟨_, .front hps hq.cons (.inl rfl) hq (List.cons_ne_self _ _).symm⟩
  | literal hp hps ih =>
    cases hq with
    | nil =>
      exact ⟨_, isLiteral_of_mem_sample (.literal hp hps),
        tokensMatch_sample (.literal hp hps), rfl⟩
    | rest => cases h
    | star hqs =>
      rw [tokensSubset_star hp.ne_rest] at h
      obtain ⟨ss, hss⟩ := ih hqs h
      exact ⟨_, hss.cons hp (.inr rfl) Token.star_ne_rest⟩
    | literal hq hqs =>
      rw [tokensSubset_literal hp hq, Bool.and_eq_false_iff] at h
      -- The literals differ, or what follows them is told apart.
      rcases h with hne | h
      · exact ⟨_, .front hps hp (.inr rfl) hq (beq_eq_false_iff_ne.1 hne).symm⟩
      · obtain ⟨ss, hss⟩ := ih hqs h
        exact ⟨_, hss.cons hp (.inr rfl) hq.ne_rest⟩

/-- What a pattern stands for, a pattern that it is a subset of stands for. -/
theorem tokensMatch_of_tokensSubset (h : tokensSubset ps qs = true)
    (hmatch : tokensMatch ss ps = true) : tokensMatch ss qs = true := by
  induction ss generalizing ps qs with
  | nil =>
    cases ps with
    | nil =>
      cases qs with
      | nil => rfl
      | cons q qs => cases h
    | cons p ps => cases hmatch
  | cons s ss ih =>
    cases ps with
    | nil => cases hmatch
    | cons p ps =>
      cases qs with
      | nil => cases h
      | cons q qs =>
        rw [tokensMatch]
        split
        · rfl
        · next hrest =>
          -- The token that covers `p` covers the token of the subject that `p` stands for.
          obtain ⟨hp, hq, hsub⟩ := tokensSubset_cons h (by simpa using hrest)
          obtain ⟨hs, hmatch⟩ := tokensMatch_cons hmatch hp
          split
          · exact ih hsub hmatch
          · next hstar =>
            have hqp : q = p := hq.resolve_left (by simpa using hstar)
            have hqs : q = s := by
              rcases hs with rfl | rfl
              · exact absurd hqp (by simpa using hstar)
              · exact hqp
            rw [if_pos (beq_iff_eq.2 hqs)]
            exact ih hsub hmatch

/-- **A pattern is a subset exactly if each of its subjects is a subject of the other.** -/
theorem patternIsSubset_iff {sub sup : String} (hsub : checkPattern sub = .ok ())
    (hsup : checkPattern sup = .ok ()) : patternIsSubset sub sup = true ↔
      ∀ subject, checkSubject subject = .ok () → subjectMatches subject sub = true →
        subjectMatches subject sup = true := by
  constructor
  · intro h subject _ hmatch
    exact tokensMatch_of_tokensSubset h hmatch
  · intro h
    cases hno : patternIsSubset sub sup with
    | true => rfl
    | false =>
      obtain ⟨ss, hss⟩ := exists_separating (arePattern_tokens hsub) (arePattern_tokens hsup) hno
      obtain ⟨subject, hsubject, rfl⟩ :=
        exists_subject (ne_nil_of_tokensMatch hss.inside) hss.literal
      have hinside := h subject hsubject hss.inside
      rw [subjectMatches, hss.outside] at hinside
      cases hinside

/-- The wildcard for the rest covers the one for one token, and not the other way round: subjects
of two more tokens tell them apart. -/
theorem events_subset :
    (∀ subject, checkSubject subject = .ok () → subjectMatches subject "events.*.page" = true →
      subjectMatches subject "events.>" = true) ∧
    ¬ ∀ subject, checkSubject subject = .ok () → subjectMatches subject "events.>" = true →
      subjectMatches subject "events.*" = true :=
  ⟨(patternIsSubset_iff rfl rfl).1 (by decide),
    mt (patternIsSubset_iff rfl rfl).2 (by decide)⟩

end StreamBroker
