/-
  LoxScript.Proofs.Scan.TokenLines
  ────────────────────────────────
  Every line that scanning writes down is a line of the text.

  Lines are counted from 1 and go up by one at each line break, so the last
  one is one more than the breaks.  A token has a line between the one on
  which its pieces begin and the one on which they end (`line_of_mem_place`);
  the pieces put together are the text, or what there is of it before the
  place where scanning stops.

  The line of a token is the one on which its lexeme *ends*.  It is also the
  one on which the lexeme starts, unless that is a string with a line break:

      x = "a          `x` and `=` have line 1
      b" ;            the string and `;` have line 2
-/
import LoxScript.Proofs.Scan.Layout

namespace LoxScript

/-! ## §1. Lines of a text. -/

/-- A line of a text. -/
def IsLineOf (text : List Char) (line : Int) : Prop :=
  1 ≤ line ∧ line ≤ (1 + Text.breaks text : Nat)

/-- Tokens stand between the first and the last line of their pieces. -/
theorem line_of_mem_place (line : Nat) (ps : List Piece) :
    ∀ t ∈ place line ps,
      (line : Int) ≤ t.line ∧ t.line ≤ (line + Text.breaks (piecesText ps) : Nat) := by
  induction ps generalizing line with
  | nil => simp [place]
  | cons p ps ih =>
    have hrest := ih (line + Text.breaks p.text)
    rw [piecesText_cons, Text.breaks_append]
    -- what follows the piece begins where the piece ends
    have hlater : ∀ t ∈ place (line + Text.breaks p.text) ps, (line : Int) ≤ t.line
        ∧ t.line ≤ (line + (Text.breaks p.text + Text.breaks (piecesText ps)) : Nat) := by
      intro t ht
      obtain ⟨hlow, hhigh⟩ := hrest t ht
      omega
    cases p with
    | gap text => exact hlater
    | lexeme kind text =>
      refine List.forall_mem_cons.2 ⟨?_, hlater⟩
      simp only [Piece.text]
      omega

/-- **TOKENS** have a line of their text. -/
theorem isLineOf_of_tokensOf {source : String} {tokens : List Token}
    (h : tokensOf source = .ok tokens) : ∀ t ∈ tokens, IsLineOf source.toList t.line := by
  obtain ⟨hstop, rfl⟩ := (tokensOf_eq_ok_iff source tokens).1 h
  have htext := cut_text source.toList
  rw [hstop, Stop.rest, List.append_nil] at htext
  rw [List.forall_mem_append, List.forall_mem_singleton]
  refine ⟨?_, ?_⟩
  · intro t ht
    have hline := line_of_mem_place 1 _ t ht
    rw [htext] at hline
    exact hline
  · simp only [IsLineOf, endToken, Text.breaks]
    omega

/-- Why scanning stops, and on which line. -/
theorem tokensOf_eq_error {source : String} {e : LexicalError} (h : tokensOf source = .error e) :
    e = ⟨.openString, (1 + Text.breaks source.toList : Nat)⟩
      ∨ ∃ c rest, (cut source.toList).stop = .stray c rest
        ∧ e = ⟨.strayCharacter (String.singleton c),
            (1 + Text.breaks (piecesText (cut source.toList).pieces) : Nat)⟩ := by
  have htext := cut_text source.toList
  unfold tokensOf scan at h
  cases hstop : (cut source.toList).stop with
  | finished => simp [hstop] at h
  | unclosed rest =>
    -- the pieces and the open string are the whole text
    have hbreaks := congrArg Text.breaks htext
    rw [hstop, Stop.rest, Text.breaks_append] at hbreaks
    simp only [hstop, Except.error.injEq] at h
    left
    rw [← h, ← hbreaks, Nat.add_assoc]
  | stray c rest =>
    simp only [hstop, Except.error.injEq] at h
    exact .inr ⟨c, rest, rfl, h.symm⟩

/-- **AN ERROR OF THE SCANNER** has a line of the text. -/
theorem isLineOf_of_tokensOf_eq_error {source : String} {e : LexicalError}
    (h : tokensOf source = .error e) : IsLineOf source.toList e.line := by
  have htext := congrArg Text.breaks (cut_text source.toList)
  rw [Text.breaks_append] at htext
  unfold IsLineOf
  rcases tokensOf_eq_error h with rfl | ⟨c, rest, -, rfl⟩
  · dsimp only
    omega
  · dsimp only
    omega

/-! ## §2. The line of a token. -/

/-- A token at its place among others.  What stands before its first character
is cut into the tokens before it; from there on the text is cut into this
token and those behind it. -/
structure StandsAt (text : List Char) (ts : List Token) (t : Token) (us : List Token)
    (before after : List Char) : Prop where
  text_eq : text = before ++ (t.lexeme.toList ++ after)
  front : Partition before ts
  back : Partition (t.lexeme.toList ++ after) (t :: us)

/-- No lexeme but a string holds a line break. -/
theorem IsLexeme.not_mem {l : List Char} {k : Kind} {v : Value} (h : IsLexeme l k v)
    (hk : k ≠ .string) : '\n' ∉ l := by
  have hsingles : ∀ p ∈ Kind.singles, p.1 ≠ '\n' := by decide
  have hpairs : ∀ p ∈ Kind.pairs, p.1 ≠ '\n' := by decide
  have hdigits : ∀ ds : List Char, (∀ d ∈ ds, d.isDigit) → '\n' ∉ ds :=
    fun ds hds hmem => absurd (hds _ hmem) (by decide)
  have hwords : ∀ cs : List Char, (∀ d ∈ cs, continuesWord d) → '\n' ∉ cs :=
    fun cs hcs hmem => absurd (hcs _ hmem) (by decide)
  cases h with
  | single hm => simpa [eq_comm] using hsingles _ hm
  | joined hm => simpa [eq_comm] using hpairs _ hm
  | alone hm => simpa [eq_comm] using hpairs _ hm
  | slash => decide
  | string _ => exact absurd rfl hk
  | whole _ hds => exact hdigits _ hds
  | fraction _ _ hds hfs => simp [hdigits _ hds, hdigits _ hfs]
  | keyword hm =>
    have hword := isWord_of_keyword hm
    cases l with
    | nil => exact List.not_mem_nil
    | cons c cs =>
      simp only [isWord, Bool.and_eq_true, List.all_eq_true] at hword
      refine hwords _ (List.forall_mem_cons.2 ⟨?_, hword.2⟩)
      simp [continuesWord, hword.1]
  | @name c cs hc hcs _ =>
    refine hwords _ (List.forall_mem_cons.2 ⟨?_, hcs⟩)
    simp [continuesWord, hc]

/-- A longest lexeme stays one if the text behind it is cut off. -/
theorem IsLongest.of_prefix {l text text' : List Char} {k : Kind} {v : Value}
    (h : IsLongest l text k v) (hl : l <+: text') (hpart : text' <+: text) :
    IsLongest l text' k v := by
  obtain ⟨hlexeme, -, hcomment, hlongest⟩ := h
  refine ⟨hlexeme, hl, fun hc => hcomment (hc.trans hpart), ?_⟩
  intro l' k' v' hl' hstarts
  exact hlongest l' k' v' hl' (hstarts.trans hpart)

/-- Where the tokens of a text stand, and on which line.  The lines before the
text are general, for a piece goes before the rest of the text. -/
theorem exists_standsAt_of_cut (cs : List Char) :
    (cut cs).stop = .finished → ∀ line ts t us, place line (cut cs).pieces = ts ++ t :: us →
      ∃ before after, StandsAt cs ts t us before after
        ∧ t.line = (line + Text.breaks before + Text.breaks t.lexeme.toList : Nat) := by
  fun_induction cut cs with
  | case1 =>
    intro _ line ts t us hplace
    cases ts <;> cases hplace
  | case2 c cs p rest hb r ih =>
    intro hstop line ts t us hplace
    obtain ⟨tail, hp, rfl⟩ := beginning_text hb
    -- a gap goes before the place that the rest of the text gives
    have hgap : ∀ gap : List Char, gap = c :: tail →
        place (line + Text.breaks gap) r.pieces = ts ++ t :: us →
        (∀ before, (∀ d ∈ before.head?, d ∈ rest.head?) → Partition before ts →
          Partition (gap ++ before) ts) →
        ∃ before after, StandsAt (c :: (tail ++ rest)) ts t us before after
          ∧ t.line = (line + Text.breaks before + Text.breaks t.lexeme.toList : Nat) := by
      intro gap hgap hrest hfront
      obtain ⟨before, after, ⟨htext, hbefore, hback⟩, hline⟩ := ih hstop _ ts t us hrest
      have hhead : ∀ d ∈ before.head?, d ∈ rest.head? := by
        intro d hd
        rw [htext]
        cases before with
        | nil => cases hd
        | cons b bs => exact hd
      refine ⟨gap ++ before, after, ⟨?_, hfront before hhead hbefore, hback⟩, ?_⟩
      · rw [← List.cons_append, ← hgap, htext, List.append_assoc]
      · rw [hline, Text.breaks_append]
        omega
    cases beginning_isFirst hb with
    | blank hblank =>
      exact hgap _ hp hplace fun before _ hbefore => hbefore.blank hblank
    | comment hbody hend =>
      exact hgap _ hp hplace fun before hhead hbefore =>
        hbefore.comment hbody fun d hd => hend d (hhead d hd)
    | @lexeme k l hlongest =>
      have hl : l = c :: tail := hp
      have htoList : (String.ofList l).toList = l := String.toList_ofList
      rw [← List.cons_append, ← hl] at hlongest ⊢
      cases ts with
      | nil =>
        -- the lexeme is the token
        obtain ⟨rfl, rfl⟩ := List.cons.inj hplace
        refine ⟨[], rest, ⟨?_, .last .nil, ?_⟩, ?_⟩
        · rw [htoList]
          rfl
        · have hrest := partition_of_cut rest hstop (line + Text.breaks l)
          have hback := Partition.lexeme hlongest (line + Text.breaks l : Nat) hrest
          rwa [htoList]
        · rw [htoList, Text.breaks_nil, Nat.add_zero]
      | cons first ts =>
        -- the lexeme is one before the token
        obtain ⟨rfl, hplace'⟩ := List.cons.inj hplace
        obtain ⟨before, after, ⟨htext, hbefore, hback⟩, hline⟩ := ih hstop _ ts t us hplace'
        have hstarts : l ++ before <+: l ++ rest :=
          (List.prefix_append_right_inj l).2 ⟨_, htext.symm⟩
        refine ⟨l ++ before, after, ⟨?_, ?_, hback⟩, ?_⟩
        · rw [htext, List.append_assoc]
        · exact .lexeme (hlongest.of_prefix (List.prefix_append l before) hstarts) _ hbefore
        · rw [hline, Text.breaks_append]
          omega
  | case3 | case4 =>
    intro hstop
    cases hstop

/-- **TOKENS HAVE THE LINE ON WHICH THEY END.**  That is the line of the first
character of the lexeme unless the lexeme has a line break, and only strings
have one. -/
theorem line_eq_of_tokensOf {source : String} {tokens ts us : List Token} {t : Token}
    (h : tokensOf source = .ok tokens) (ht : tokens = ts ++ t :: us)
    (hend : t.kind ≠ .endOfText) :
    ∃ before after, StandsAt source.toList ts t us.dropLast before after
      ∧ t.line = (1 + Text.breaks before + Text.breaks t.lexeme.toList : Nat)
      ∧ (t.line = (1 + Text.breaks before : Nat) ↔ '\n' ∉ t.lexeme.toList)
      ∧ ('\n' ∈ t.lexeme.toList → t.kind = .string) := by
  obtain ⟨hstop, hplaced⟩ := (tokensOf_eq_ok_iff source tokens).1 h
  rw [ht] at hplaced
  -- the last token is the one at the end, so this is another
  have hne : us ≠ [] := by
    rintro rfl
    have hlast := (List.append_inj' hplaced rfl).2
    exact hend (by rw [(List.cons.inj hlast).1]; rfl)
  have hplace : place 1 (cut source.toList).pieces = ts ++ t :: us.dropLast := by
    have hdrop := congrArg List.dropLast hplaced
    rw [List.dropLast_concat, List.dropLast_append_of_ne_nil (List.cons_ne_nil t us),
      List.dropLast_cons_of_ne_nil hne] at hdrop
    exact hdrop.symm
  obtain ⟨before, after, hstands, hline⟩ := exists_standsAt_of_cut _ hstop 1 _ _ _ hplace
  have hmem : '\n' ∈ t.lexeme.toList ↔ 0 < Text.breaks t.lexeme.toList :=
    List.count_pos_iff.symm
  refine ⟨before, after, hstands, hline, ?_, ?_⟩
  · rw [hline, hmem]
    omega
  · intro hbreak
    have hlexeme := hstands.back.isLexeme t List.mem_cons_self
    by_contra hkind
    exact hlexeme.not_mem hkind hbreak

/-- A string that begins behind a line break and has another inside. -/
theorem line_eq_of_tokensOf_string :
    tokensOf "a\n\"b\nc\"" = .ok ([⟨.identifier, "a", .name "a", 1⟩]
        ++ ⟨.string, "\"b\nc\"", .text "b\nc", 3⟩ :: [endToken 3])
      ∧ ∃ before after, StandsAt "a\n\"b\nc\"".toList [⟨.identifier, "a", .name "a", 1⟩]
            ⟨.string, "\"b\nc\"", .text "b\nc", 3⟩ [] before after
        ∧ (3 : Int) = (1 + Text.breaks before + Text.breaks "\"b\nc\"".toList : Nat) := by
  have hcut : cut "a\n\"b\nc\"".toList
      = ⟨[.lexeme .identifier ['a'], .gap ['\n'], .lexeme .string ['\x22', 'b', '\n', 'c', '\x22']],
          .finished⟩ := by
    cbv
  have htokens : tokensOf "a\n\"b\nc\"" = .ok ([⟨.identifier, "a", .name "a", 1⟩]
      ++ ⟨.string, "\"b\nc\"", .text "b\nc", 3⟩ :: [endToken 3]) := by
    rw [tokensOf_eq_ok_iff, hcut]
    exact ⟨rfl, rfl⟩
  obtain ⟨before, after, hstands, hline, -⟩ := line_eq_of_tokensOf htokens rfl (by decide)
  exact ⟨htokens, before, after, hstands, hline⟩

/-- The token of a string that is one line break starts on line 1 and has line 2. -/
theorem line_ne_start :
    ¬ ∀ source tokens, tokensOf source = .ok tokens → ∀ ts t us, tokens = ts ++ t :: us →
        t.kind ≠ .endOfText → ∃ before after, StandsAt source.toList ts t us.dropLast before after
          ∧ t.line = (1 + Text.breaks before : Nat) := by
  intro h
  have hcut : cut "\"\n\"".toList = ⟨[.lexeme .string ['\x22', '\n', '\x22']], .finished⟩ := by
    cbv
  have htokens : tokensOf "\"\n\"" = .ok [⟨.string, "\"\n\"", .text "\n", 2⟩, endToken 2] := by
    rw [tokensOf_eq_ok_iff, hcut]
    exact ⟨rfl, rfl⟩
  obtain ⟨before, after, hstands, hline⟩ := h _ _ htokens [] _ _ rfl (by decide)
  -- the lexeme is the whole text, so nothing stands before it
  have htext : "\"\n\"".toList = before ++ ("\"\n\"".toList ++ after) := hstands.text_eq
  have hlength := congrArg List.length htext
  rw [List.length_append, List.length_append] at hlength
  have hnil : before = [] := List.eq_nil_of_length_eq_zero (by omega)
  rw [hnil] at hline
  exact absurd hline (by decide)

end LoxScript
