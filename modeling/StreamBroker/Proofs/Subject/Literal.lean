import StreamBroker.KeyValue.Settings
import StreamBroker.Proofs.Except
import StreamBroker.Proofs.Subject

/-!
# Subjects as patterns

A subject is a pattern without wildcards: it stands for itself and for nothing else.  Subjects that
are made of parts, with a dot between neighbours, have the tokens of their parts, so a subject
behind a dot is among those of the pattern that has the wildcard for the rest there.

## Main results

* `checkSubject_eq_ok_iff`: a text is a subject exactly when its tokens are literal
* `tokens_append_dot`: the tokens of a text that is made of two
* `subjectMatches_iff_eq`: a subject as a pattern stands for itself only
* `subjectMatches_behind_iff`: the subjects behind a dot
* `checkLiteral_of_isKeyToken`, `tokens_of_checkBucket`: tokens of keys and names of buckets are
  literal
-/

namespace StreamBroker

variable {s t : Token} {ss ts ps : List Token}

/-! ## Literal tokens -/

theorem checkLiteral_eq_ok_iff : checkLiteral t = .ok () ↔
    t ≠ [] ∧ ∀ c ∈ t, c ≠ '*' ∧ c ≠ '>' ∧ Text.isBlank c = false ∧ Text.isControl c = false := by
  rw [checkLiteral]
  split
  · next h => simp [List.isEmpty_iff.1 h]
  · next h =>
    have hne : t ≠ [] := fun h' => h (List.isEmpty_iff.2 h')
    split
    · next h =>
      obtain ⟨c, hc, hwild⟩ := List.any_eq_true.1 h
      simp only [Bool.or_eq_true, beq_iff_eq] at hwild
      simp only [reduceCtorEq, false_iff]
      rintro ⟨-, hall⟩
      exact hwild.elim (hall c hc).1 (hall c hc).2.1
    · next hwild =>
      split
      · next h =>
        obtain ⟨c, hc, hblank⟩ := List.any_eq_true.1 h
        simp only [reduceCtorEq, false_iff]
        rintro ⟨-, hall⟩
        simp [(hall c hc).2.2] at hblank
      · next hblank =>
        simp only [List.any_eq_true, Bool.or_eq_true, beq_iff_eq, not_exists, not_and, not_or,
          Bool.not_eq_true] at hwild hblank
        simp only [true_iff]
        exact ⟨hne, fun c hc => ⟨(hwild c hc).1, (hwild c hc).2, hblank c hc⟩⟩

theorem ne_star_of_checkLiteral (h : checkLiteral t = .ok ()) : t ≠ Token.star := by
  rintro rfl
  cases h

theorem ne_rest_of_checkLiteral (h : checkLiteral t = .ok ()) : t ≠ Token.rest := by
  rintro rfl
  cases h

theorem checkSubjectToken_eq_ok_iff :
    checkSubjectToken t = .ok () ↔ checkLiteral t = .ok () := by
  rw [checkSubjectToken]
  split
  · next h =>
    rw [Bool.or_eq_true, beq_iff_eq, beq_iff_eq] at h
    constructor
    · intro h'
      cases h'
    · intro h'
      exact absurd h (by simp [ne_star_of_checkLiteral h', ne_rest_of_checkLiteral h'])
  · rfl

theorem checkSubjectTokens_eq_ok_iff :
    checkSubjectTokens ts = .ok () ↔ ∀ t ∈ ts, checkLiteral t = .ok () := by
  induction ts with
  | nil => simp [checkSubjectTokens]
  | cons t ts ih =>
    rw [checkSubjectTokens, List.forall_mem_cons, ← ih, ← checkSubjectToken_eq_ok_iff]
    refine except_bind_eq_ok.trans ⟨?_, fun ⟨ht, hts⟩ => ⟨⟨⟩, ht, hts⟩⟩
    rintro ⟨⟨⟩, ht, hts⟩
    exact ⟨ht, hts⟩

/-- A text is a subject exactly when its tokens are literal. -/
theorem checkSubject_eq_ok_iff {subject : String} :
    checkSubject subject = .ok () ↔ ∀ t ∈ tokens subject, checkLiteral t = .ok () := by
  rw [checkSubject]
  split
  · next h =>
    rw [String.isEmpty_iff] at h
    subst h
    constructor
    · intro h
      cases h
    · intro h
      cases h [] (List.mem_singleton_self _)
  · exact checkSubjectTokens_eq_ok_iff

/-- Literal tokens in front do not matter to whether tokens are those of a pattern. -/
theorem checkPatternTokens_append (h : ∀ p ∈ ps, checkLiteral p = .ok ()) (ts : List Token) :
    checkPatternTokens (ps ++ ts) = checkPatternTokens ts := by
  induction ps with
  | nil => rfl
  | cons p ps ih =>
    rw [List.forall_mem_cons] at h
    have hstar := ne_star_of_checkLiteral h.1
    have hrest := ne_rest_of_checkLiteral h.1
    rw [List.cons_append, checkPatternTokens, if_neg (by simpa using hrest),
      if_neg (by simpa using hstar), h.1, ih h.2]
    rfl

/-- A subject is a pattern. -/
theorem checkPattern_of_checkSubject {subject : String} (h : checkSubject subject = .ok ()) :
    checkPattern subject = .ok () := by
  have htokens := checkPatternTokens_append (checkSubject_eq_ok_iff.1 h) []
  rw [List.append_nil] at htokens
  rw [checkSubject] at h
  rw [checkPattern]
  split
  · next hempty =>
    rw [if_pos hempty] at h
    cases h
  · exact htokens

/-! ## Tokens of parts -/

theorem Token.split_append (cs ds : List Char) :
    Token.split (cs ++ '.' :: ds) = Token.split cs ++ Token.split ds := by
  induction cs with
  | nil => exact Token.split_dot_cons ds
  | cons c cs ih =>
    rw [List.cons_append, Token.split_cons, ih, Token.split_cons]
    cases hs : Token.split cs with
    | nil => exact absurd hs (Token.split_ne_nil cs)
    | cons t ts =>
      simp only [List.cons_append, Token.consChar]
      split <;> rfl

/-- The tokens of a text that is made of two with a dot between them. -/
theorem tokens_append_dot (front back : String) :
    tokens (front ++ "." ++ back) = tokens front ++ tokens back := by
  rw [tokens, String.toList_append, String.toList_append,
    show ".".toList = ['.'] from rfl, List.append_assoc, List.singleton_append, Token.split_append,
    tokens, tokens]

/-- A subject with the wildcard for the rest behind it is a pattern. -/
theorem checkPattern_behind {front : String} (h : checkSubject front = .ok ()) :
    checkPattern (front ++ "." ++ ">") = .ok () := by
  have hne : (front ++ "." ++ ">").isEmpty ≠ true := by
    rw [Ne, String.isEmpty_iff, ← String.toList_eq_nil_iff]
    simp
  rw [checkPattern, if_neg hne, tokens_append_dot,
    checkPatternTokens_append (checkSubject_eq_ok_iff.1 h)]
  rfl

/-- A text is known by its tokens. -/
theorem tokens_inj {subject other : String} (h : tokens subject = tokens other) :
    subject = other := by
  rw [← String.toList_inj, ← Token.join_split subject.toList, ← Token.join_split other.toList]
  exact congrArg Token.join h

/-- A text without dots is one token. -/
theorem tokens_of_dot_notMem {text : String} (h : '.' ∉ text.toList) :
    tokens text = [text.toList] := Token.split_of_dot_notMem h

/-! ## What subjects stand for -/

theorem tokensMatch_append (h : ∀ p ∈ ps, checkLiteral p = .ok ()) (ss ts : List Token) :
    tokensMatch ss (ps ++ ts) = true ↔ ∃ us, ss = ps ++ us ∧ tokensMatch us ts = true := by
  induction ps generalizing ss with
  | nil => simp
  | cons p ps ih =>
    rw [List.forall_mem_cons] at h
    have hstar := ne_star_of_checkLiteral h.1
    have hrest := ne_rest_of_checkLiteral h.1
    cases ss with
    | nil => simp [tokensMatch]
    | cons s ss =>
      rw [List.cons_append, tokensMatch, if_neg (by simpa using hrest),
        if_neg (by simpa using hstar)]
      by_cases hps : p = s
      · subst hps
        simp [ih h.2]
      · have hsp : ¬s = p := fun h => hps h.symm
        simp [hps, hsp]

/-- A subject as a pattern stands for itself only. -/
theorem subjectMatches_iff_eq {subject pattern : String} (h : checkSubject pattern = .ok ()) :
    subjectMatches subject pattern = true ↔ subject = pattern := by
  have htokens := tokensMatch_append (checkSubject_eq_ok_iff.1 h) (tokens subject) []
  rw [List.append_nil] at htokens
  rw [subjectMatches, htokens]
  constructor
  · rintro ⟨us, hus, hnil⟩
    cases us with
    | nil => exact tokens_inj (by simpa using hus)
    | cons u us => cases hnil
  · rintro rfl
    exact ⟨[], by simp, rfl⟩

/-- What a subject and a pattern begin with alike does not matter to whether they match. -/
theorem subjectMatches_behind {front : String} (h : checkSubject front = .ok ())
    (back pattern : String) :
    subjectMatches (front ++ "." ++ back) (front ++ "." ++ pattern) =
      subjectMatches back pattern := by
  rw [Bool.eq_iff_iff, subjectMatches, tokens_append_dot, tokens_append_dot,
    tokensMatch_append (checkSubject_eq_ok_iff.1 h), subjectMatches]
  simp only [List.append_cancel_left_eq, exists_eq_left']

/-- The subjects that stand behind a dot are those of the pattern with the wildcard for the rest
there. -/
theorem subjectMatches_behind_iff {front subject : String} (h : checkSubject front = .ok ()) :
    subjectMatches subject (front ++ "." ++ ">") = true ↔
      ∃ back, subject = front ++ "." ++ back := by
  have hrest (us : List Token) : tokensMatch us [Token.rest] = true ↔ us ≠ [] := by
    cases us <;> simp [tokensMatch]
  rw [subjectMatches, tokens_append_dot, show tokens ">" = [Token.rest] from rfl,
    tokensMatch_append (checkSubject_eq_ok_iff.1 h)]
  constructor
  · rintro ⟨us, hus, hmatch⟩
    rw [hrest] at hmatch
    -- The tokens behind are those of a text, as none of them has a dot.
    refine ⟨String.ofList (Token.join us), tokens_inj ?_⟩
    have hdots : ∀ t ∈ us, '.' ∉ t := fun t ht => by
      have hmem : t ∈ Token.split subject.toList := by
        rw [show Token.split subject.toList = tokens subject from rfl, hus]
        exact List.mem_append_right _ ht
      exact Token.dot_notMem_of_mem_split hmem
    have hback : tokens (String.ofList (Token.join us)) = us := by
      rw [tokens, String.toList_ofList, Token.split_join hmatch hdots]
    rw [tokens_append_dot, hus, hback]
  · rintro ⟨back, rfl⟩
    refine ⟨tokens back, tokens_append_dot front back, ?_⟩
    exact (hrest _).2 (Token.split_ne_nil _)

/-! ## Keys and buckets -/

/-- Between the blank and the delete character there are no blanks and no controls. -/
theorem isBlank_eq_false_of_visible {c : Char} (hlow : 0x21 ≤ c.toNat) (hhigh : c.toNat ≤ 0x7E) :
    Text.isBlank c = false ∧ Text.isControl c = false := by
  constructor
  · simp only [Text.isBlank, Text.blankRanges, List.any_eq_false, Bool.and_eq_true,
      decide_eq_true_eq, not_and, List.forall_mem_cons]
    simp only [List.not_mem_nil, false_imp_iff, implies_true, and_true]
    omega
  · simp only [Text.isControl, Bool.or_eq_false_iff, Bool.and_eq_false_iff, decide_eq_false_iff_not]
    omega

/-- The code points of letters and digits. -/
theorem toNat_of_isAlphanum {c : Char} (h : c.isAlphanum = true) :
    0x30 ≤ c.toNat ∧ c.toNat ≤ 0x39 ∨ 0x41 ≤ c.toNat ∧ c.toNat ≤ 0x5A ∨
      0x61 ≤ c.toNat ∧ c.toNat ≤ 0x7A := by
  have hc : c.toNat = c.val.toNat := rfl
  have h : (decide (65 ≤ c.val ∧ c.val ≤ 90) || decide (97 ≤ c.val) && decide (c.val ≤ 122) ||
      decide (48 ≤ c.val) && decide (c.val ≤ 57)) = true := h
  simp only [Bool.or_eq_true, Bool.and_eq_true, decide_eq_true_eq, UInt32.le_iff_toNat_le,
    UInt32.reduceToNat] at h
  omega

theorem isKeyChar_of_isBucketChar {c : Char} (h : isBucketChar c = true) : isKeyChar c = true := by
  simp only [isBucketChar, isKeyChar, Bool.or_eq_true] at h ⊢
  rcases h with (h | h) | h <;> simp [h]

/-- The characters of keys are literal, and no dots. -/
theorem literal_of_isKeyChar {c : Char} (h : isKeyChar c = true) :
    c ≠ '.' ∧ c ≠ '*' ∧ c ≠ '>' ∧ Text.isBlank c = false ∧ Text.isControl c = false := by
  simp only [isKeyChar, Text.isAsciiAlphanumeric, Bool.or_eq_true, beq_iff_eq] at h
  rcases h with (((h | rfl) | rfl) | rfl) | rfl
  · have hrange := toNat_of_isAlphanum h
    refine ⟨?_, ?_, ?_, isBlank_eq_false_of_visible (by omega) (by omega)⟩
    all_goals
      rintro rfl
      cases h
  all_goals decide

/-- A token of a key is literal. -/
theorem checkLiteral_of_isKeyToken (h : isKeyToken t = true) : checkLiteral t = .ok () := by
  rw [isKeyToken, Bool.and_eq_true, Bool.not_eq_true', List.isEmpty_eq_false_iff] at h
  exact checkLiteral_eq_ok_iff.2
    ⟨h.1, fun c hc => (literal_of_isKeyChar (List.all_eq_true.1 h.2 c hc)).2⟩

/-- A token of a key stands behind a dot. -/
theorem checkSubject_behind {front text : String} (hfront : checkSubject front = .ok ())
    (htext : isKeyToken text.toList = true) : checkSubject (front ++ "." ++ text) = .ok () := by
  have hliteral := checkLiteral_of_isKeyToken htext
  rw [isKeyToken, Bool.and_eq_true] at htext
  have htokens : tokens text = [text.toList] := tokens_of_dot_notMem fun hdot =>
    (literal_of_isKeyChar (List.all_eq_true.1 htext.2 _ hdot)).1 rfl
  rw [checkSubject_eq_ok_iff, tokens_append_dot, htokens]
  intro t ht
  rcases List.mem_append.1 ht with ht | ht
  · exact checkSubject_eq_ok_iff.1 hfront t ht
  · rw [List.mem_singleton.1 ht]
    exact hliteral

theorem checkKey_eq_ok_iff {key : String} :
    checkKey key = .ok () ↔ ∀ t ∈ tokens key, isKeyToken t = true := by
  rw [← List.all_eq_true, checkKey]
  split
  · next h => simp [h]
  · next h => simp [h]

/-- The name of a bucket is one token, which is literal. -/
theorem tokens_of_checkBucket {bucket : String} (h : checkBucket bucket = .ok ()) :
    tokens bucket = [bucket.toList] ∧ checkLiteral bucket.toList = .ok () := by
  rw [checkBucket] at h
  split at h
  · cases h
  · next hb =>
    simp only [Bool.or_eq_true, Bool.not_eq_true', not_or, Bool.not_eq_true, Bool.not_eq_false]
      at hb
    have hall := List.all_eq_true.1 hb.2
    have hne : bucket.toList ≠ [] := by
      rw [Ne, String.toList_eq_nil_iff, ← String.isEmpty_iff, hb.1]
      exact Bool.false_ne_true
    refine ⟨tokens_of_dot_notMem fun hdot => ?_, checkLiteral_eq_ok_iff.2 ⟨hne, fun c hc => ?_⟩⟩
    · exact (literal_of_isKeyChar (isKeyChar_of_isBucketChar (hall _ hdot))).1 rfl
    · exact (literal_of_isKeyChar (isKeyChar_of_isBucketChar (hall c hc))).2

end StreamBroker
