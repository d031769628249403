/-
  LoxScript.Proofs.Scan.Stops
  ────────────────────────────────
  Where cutting stops, and why.

  Cutting a text goes from the start over blanks, comments and longest
  lexemes.  It stops at the end of the text, or at a place where none of them
  begins, and there are two reasons for that: the character there starts no
  lexeme and is no blank, or it is a quote without another quote behind it.

      CutsTo text rest          — cutting `text` comes to where `rest` is left
      Blocks text cause read    — cutting stops at the start of `text`; what it
                                  has looked at then is `read`

  Both are said without `cut`, and they decide where it stops: it comes to that
  place (`cutsTo_stop`) for such a reason (`finished_or_blocks`), and it comes
  to no other one (`CutsTo.stop_eq`).  What stands before the place, taken alone, is
  cut in the same way to its end (`cut_piecesText`).
-/
import LoxScript.Proofs.Scan.TokenLines

namespace LoxScript

/-! ## §1. Places that cutting comes to. -/

/-- Blanks, comments and longest lexemes lead from the start of a text to a
rest of it. -/
inductive CutsTo : List Char → List Char → Prop where
  | here {rest : List Char} : CutsTo rest rest
  | gap {gap text rest : List Char} : IsGap gap text → CutsTo text rest →
      CutsTo (gap ++ text) rest
  | lexeme {l text rest : List Char} {k : Kind} {v : Value} : IsLongest l (l ++ text) k v →
      CutsTo text rest → CutsTo (l ++ text) rest

/-- A text at the start of which nothing can be cut, why not, and what of it
is read until that is clear. -/
inductive Blocks : List Char → LexicalCause → List Char → Prop where
  | stray {c : Char} {cs : List Char} : c ∉ blanks → (∀ l k v, ¬ IsLexeme (c :: l) k v) →
      Blocks (c :: cs) (.strayCharacter (String.singleton c)) [c]
  | openString {cs : List Char} : '\x22' ∉ cs → Blocks ('\x22' :: cs) .openString ('\x22' :: cs)

/-! ## §2. Texts that begin with nothing. -/

theorem beginning_eq_unclosed_iff {c : Char} {cs : List Char} :
    beginning c cs = .unclosed ↔ c = '\x22' ∧ '\x22' ∉ cs := by
  constructor
  · intro h
    unfold beginning at h
    split at h
    · cases h
    · split at h <;> cases h
    split at h
    · split at h <;> cases h
    split at h
    · cases h
    split at h
    · next hquote =>
      split at h
      · next hdrop =>
        refine ⟨hquote, fun hmem => ?_⟩
        simpa using List.dropWhile_eq_nil_iff.1 hdrop _ hmem
      · cases h
    split at h
    · cases h
    split at h <;> cases h
  · rintro ⟨rfl, hcs⟩
    have hdrop : cs.dropWhile (· ≠ '\x22') = [] := by
      rw [List.dropWhile_eq_nil_iff]
      intro d hd
      rw [decide_eq_true_iff]
      rintro rfl
      exact hcs hd
    have hnone : Kind.singles.lookup '\x22' = none ∧ Kind.pairs.lookup '\x22' = none := ⟨rfl, rfl⟩
    unfold beginning
    rw [hnone.1, hnone.2, hdrop]
    rfl

/-- What follows a stray character does not matter. -/
theorem beginning_stray_congr {c : Char} {cs : List Char} (h : beginning c cs = .stray)
    (cs' : List Char) : beginning c cs' = .stray := by
  unfold beginning at h ⊢
  split at h
  · cases h
  · split at h <;> cases h
  split at h
  · split at h <;> cases h
  rw [if_neg ‹_›]
  split at h
  · cases h
  rw [if_neg ‹_›]
  split at h
  · split at h <;> cases h
  rw [if_neg ‹_›]
  split at h
  · cases h
  rw [if_neg ‹_›]
  split at h
  · cases h
  rw [if_neg ‹_›]

/-- A quote starts a string. -/
theorem isLexeme_quotes :
    IsLexeme ['\x22', '\x22'] .string (.text (String.ofList [])) :=
  @IsLexeme.string [] (by simp)

theorem blank_or_isLexeme_of_beginning {c : Char} {cs rest : List Char} {p : Piece}
    (hb : beginning c cs = .piece p rest) : c ∈ blanks ∨ ∃ l k v, IsLexeme (c :: l) k v := by
  obtain ⟨t, ht, -⟩ := beginning_text hb
  cases beginning_isFirst hb with
  | blank hc =>
    obtain ⟨rfl, -⟩ := List.cons.inj ht
    exact .inl hc
  | comment _ _ =>
    obtain ⟨rfl, -⟩ := List.cons.inj ht
    exact .inr ⟨_, _, _, .slash⟩
  | @lexeme k l hl =>
    have htext : l = c :: t := ht
    rw [htext] at hl
    exact .inr ⟨_, _, _, hl.lexeme⟩

theorem beginning_eq_stray_iff {c : Char} {cs : List Char} :
    beginning c cs = .stray ↔ c ∉ blanks ∧ ∀ l k v, ¬ IsLexeme (c :: l) k v := by
  constructor
  · intro h
    constructor
    · intro hblank
      rw [beginning_of_blank hblank] at h
      cases h
    · intro l k v hl
      have hstray := beginning_stray_congr h l
      rw [beginning_of_isLexeme hl] at hstray
      cases hstray
  · rintro ⟨hblank, hlexeme⟩
    cases hb : beginning c cs with
    | stray => rfl
    | unclosed =>
      obtain ⟨rfl, -⟩ := beginning_eq_unclosed_iff.1 hb
      exact absurd isLexeme_quotes (hlexeme _ _ _)
    | piece p rest =>
      rcases blank_or_isLexeme_of_beginning hb with hc | ⟨l, k, v, hl⟩
      · exact absurd hc hblank
      · exact absurd hl (hlexeme l k v)

theorem cut_cons_of_unclosed {c : Char} {cs : List Char} (h : beginning c cs = .unclosed) :
    cut (c :: cs) = ⟨[], .unclosed (c :: cs)⟩ := by
  rw [cut]
  split
  · next h' => exact absurd (h.symm.trans h') (by simp)
  · rfl
  · next h' => exact absurd (h.symm.trans h') (by simp)

theorem cut_cons_of_stray {c : Char} {cs : List Char} (h : beginning c cs = .stray) :
    cut (c :: cs) = ⟨[], .stray c cs⟩ := by
  rw [cut]
  split
  · next h' => exact absurd (h.symm.trans h') (by simp)
  · next h' => exact absurd (h.symm.trans h') (by simp)
  · rfl

/-- Where nothing can be cut, cutting stops. -/
theorem Blocks.rest_stop {text read : List Char} {cause : LexicalCause}
    (h : Blocks text cause read) : (cut text).stop.rest = text := by
  cases h with
  | stray hblank hlexeme =>
    rw [cut_cons_of_stray (beginning_eq_stray_iff.2 ⟨hblank, hlexeme⟩)]
    rfl
  | openString hcs =>
    rw [cut_cons_of_unclosed (beginning_eq_unclosed_iff.2 ⟨rfl, hcs⟩)]
    rfl

theorem Blocks.exists_append {text read : List Char} {cause : LexicalCause}
    (h : Blocks text cause read) : ∃ more, text = read ++ more := by
  cases h with
  | stray _ _ => exact ⟨_, rfl⟩
  | openString _ => exact ⟨[], (List.append_nil _).symm⟩

/-- There is one reason: a quote is not stray. -/
theorem Blocks.unique {text read read' : List Char} {cause cause' : LexicalCause}
    (h : Blocks text cause read) (h' : Blocks text cause' read') :
    cause = cause' ∧ read = read' := by
  cases h with
  | stray _ hlexeme =>
    cases h' with
    | stray _ _ => exact ⟨rfl, rfl⟩
    | openString _ => exact absurd isLexeme_quotes (hlexeme _ _ _)
  | openString _ =>
    cases h' with
    | stray _ hlexeme => exact absurd isLexeme_quotes (hlexeme _ _ _)
    | openString _ => exact ⟨rfl, rfl⟩

/-! ## §3. Longest lexemes. -/

/-- A longest lexeme at the start of a text is its first piece. -/
theorem beginning_of_isLongest {c : Char} {t rest : List Char} {k : Kind} {v : Value}
    (h : IsLongest (c :: t) (c :: (t ++ rest)) k v) :
    beginning c (t ++ rest) = .piece (.lexeme k (c :: t)) rest := by
  have halone := beginning_of_isLexeme h.lexeme
  cases hb : beginning c (t ++ rest) with
  | stray =>
    rw [beginning_stray_congr hb t] at halone
    cases halone
  | unclosed =>
    obtain ⟨rfl, hquote⟩ := beginning_eq_unclosed_iff.1 hb
    have ht : '\x22' ∉ t := fun hmem => hquote (List.mem_append_left _ hmem)
    rw [beginning_eq_unclosed_iff.2 ⟨rfl, ht⟩] at halone
    cases halone
  | piece p rest' =>
    obtain ⟨t', ht', htext⟩ := beginning_text hb
    cases beginning_isFirst hb with
    | blank hc =>
      obtain ⟨rfl, -⟩ := List.cons.inj ht'
      rw [beginning_of_blank hc] at halone
      cases halone
    | comment _ _ =>
      -- where a comment starts, no lexeme is read
      obtain ⟨rfl, rfl⟩ := List.cons.inj ht'
      refine absurd ?_ h.noComment
      rw [← htext]
      exact ⟨_, rfl⟩
    | @lexeme k' l hl =>
      have hlt : l = c :: t' := ht'
      rw [hlt] at hl ⊢
      -- neither lexeme is longer than the other
      have hle := h.length_le _ _ _ hl.lexeme hl.starts
      have hge := hl.length_le _ _ _ h.lexeme h.starts
      obtain ⟨rfl, rfl⟩ := List.append_inj htext (by simpa using Nat.le_antisymm hle hge)
      rw [beginning_of_isLexeme hl.lexeme] at halone
      obtain ⟨rfl, -⟩ := Piece.lexeme.inj (Beginning.piece.inj halone).1
      rfl

/-! ## §4. Where cutting stops. -/

/-- Cutting a text comes to where it stops. -/
theorem cutsTo_stop (text : List Char) : CutsTo text (cut text).stop.rest := by
  fun_induction cut text with
  | case1 => exact .here
  | case2 c cs p rest hb r ih =>
    obtain ⟨t, ht, rfl⟩ := beginning_text hb
    rw [← List.cons_append]
    cases beginning_isFirst hb with
    | blank hc =>
      obtain ⟨rfl, rfl⟩ := List.cons.inj ht
      exact .gap (.blank hc .nil) ih
    | @comment body hbody hend =>
      obtain ⟨rfl, rfl⟩ := List.cons.inj ht
      have hgap := @IsGap.comment body [] _ hbody hend .nil
      rw [List.append_nil] at hgap
      exact .gap hgap ih
    | @lexeme k l hl =>
      have hlt : l = c :: t := ht
      rw [hlt] at hl
      exact .lexeme hl ih
  | case3 | case4 => exact .here

/-- Where cutting stops at a quote, no other quote follows. -/
theorem blocks_of_unclosed {text rest : List Char} (h : (cut text).stop = .unclosed rest) :
    Blocks rest .openString rest := by
  fun_induction cut text with
  | case1 | case4 => cases h
  | case2 c cs p rest' hb r ih => exact ih h
  | case3 c cs hb =>
    obtain rfl := Stop.unclosed.inj h
    obtain ⟨rfl, hcs⟩ := beginning_eq_unclosed_iff.1 hb
    exact .openString hcs

/-- Where it stops at another character, that one is stray. -/
theorem blocks_of_stray {text rest : List Char} {c : Char} (h : (cut text).stop = .stray c rest) :
    Blocks (c :: rest) (.strayCharacter (String.singleton c)) [c] := by
  fun_induction cut text with
  | case1 | case3 => cases h
  | case2 c' cs p rest' hb r ih => exact ih h
  | case4 c' cs hb =>
    obtain ⟨rfl, rfl⟩ := Stop.stray.inj h
    obtain ⟨hblank, hlexeme⟩ := beginning_eq_stray_iff.1 hb
    exact .stray hblank hlexeme

theorem finished_or_blocks (text : List Char) :
    (cut text).stop = .finished ∨ ∃ cause read, Blocks (cut text).stop.rest cause read := by
  cases hstop : (cut text).stop with
  | finished => exact .inl rfl
  | unclosed rest => exact .inr ⟨_, _, blocks_of_unclosed hstop⟩
  | stray c rest => exact .inr ⟨_, _, blocks_of_stray hstop⟩

/-- **Cutting goes on** from every place that it comes to. -/
theorem CutsTo.stop_eq {text rest : List Char} (h : CutsTo text rest) :
    (cut text).stop = (cut rest).stop := by
  induction h with
  | here => rfl
  | gap hgap _ ih => exact (cut_gap_append hgap).1.trans ih
  | @lexeme l text _ _ _ hl _ ih =>
    obtain ⟨c, t, rfl⟩ := List.exists_cons_of_ne_nil hl.lexeme.ne_nil
    have hb := beginning_of_isLongest hl
    rw [List.cons_append, cut_cons_of_beginning hb]
    exact ih

/-! ## §5. The text before the stop. -/

/-- A first piece stays the first piece if the text behind it is cut off. -/
theorem beginning_of_shorter {c : Char} {t rest rest' : List Char} {p : Piece}
    (hb : beginning c (t ++ rest) = .piece p rest) (hp : p.text = c :: t)
    (hrest : rest' <+: rest) : beginning c (t ++ rest') = .piece p rest' := by
  cases beginning_isFirst hb with
  | blank hc =>
    obtain ⟨rfl, rfl⟩ := List.cons.inj hp
    exact beginning_of_blank hc _
  | comment hbody hend =>
    obtain ⟨rfl, rfl⟩ := List.cons.inj hp
    refine beginning_of_comment hbody ?_
    intro d hd
    obtain ⟨more, rfl⟩ := hrest
    refine hend d ?_
    cases rest' with
    | nil => cases hd
    | cons e es => exact hd
  | @lexeme k l hl =>
    have hlt : l = c :: t := hp
    rw [hlt] at hl ⊢
    refine beginning_of_isLongest (hl.of_prefix ?_ ?_)
    · exact List.prefix_append (c :: t) rest'
    · exact (List.prefix_append_right_inj (c :: t)).2 hrest

/-- **The pieces of a text**, put together again, are cut in the same way to
their end. -/
theorem cut_piecesText (text : List Char) :
    cut (piecesText (cut text).pieces) = ⟨(cut text).pieces, .finished⟩ := by
  fun_induction cut text with
  | case1 | case3 | case4 =>
    rw [piecesText_nil, cut]
  | case2 c cs p rest hb r ih =>
    obtain ⟨t, ht, rfl⟩ := beginning_text hb
    have hrest : piecesText r.pieces <+: rest := ⟨_, cut_text rest⟩
    rw [piecesText_cons, ht, List.cons_append,
      cut_cons_of_beginning (beginning_of_shorter hb ht hrest), ih]

end LoxScript
