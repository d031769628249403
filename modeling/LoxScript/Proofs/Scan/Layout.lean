/-
  LoxScript.Proofs.Scan.Layout
  ────────────────────────────────
  How a text is laid out means nothing to its tokens.

  A layout is a list of lexemes with a gap in front of them and one behind
  each of them.  It is proper if every gap between two lexemes begins with a
  blank; comments may stand in all gaps, and only the last one can end
  without a line break.  Then whatever the gaps are, the tokens are the
  lexemes, each of the kind and with the literal that it has alone.

  One thing a proper layout may still do is put a comment directly behind a
  last `/`.  The comment then begins one character earlier, and the operator
  is lost (`layout_slash_lost`); a layout that does not do so keeps it apart
  (`Layout.KeepsSlash`).
-/
import LoxScript.Proofs.Scan.Continuation
import LoxScript.Proofs.Scan.Partition

namespace LoxScript

/-! ## §1. Layouts. -/

/-- Blanks and comments, every comment closed by a line break. -/
inductive IsClosedGap : List Char → Prop where
  | nil : IsClosedGap []
  | blank {c : Char} {gap : List Char} : c ∈ blanks → IsClosedGap gap → IsClosedGap (c :: gap)
  | comment {cs gap : List Char} : '\n' ∉ cs → IsClosedGap gap →
      IsClosedGap ('/' :: '/' :: cs ++ '\n' :: gap)

/-- A first gap, and lexemes each with the gap behind it. -/
structure Layout where
  first : List Char
  body : List (List Char × List Char)

namespace Layout

def lexemes (x : Layout) : List (List Char) := x.body.map Prod.fst

def gaps (x : Layout) : List (List Char) := x.first :: x.body.map Prod.snd

/-- Gaps and lexemes in turn. -/
def text (x : Layout) : List Char := x.first ++ x.body.flatMap fun p => p.1 ++ p.2

/-- Lexemes of the grammar, closed gaps in front of them, a last gap that may
end in an open comment, and a blank at the start of each gap between two
lexemes. -/
structure IsProper (x : Layout) : Prop where
  lexeme : ∀ l ∈ x.lexemes, ∃ k v, IsLexeme l k v
  closed : ∀ g ∈ x.gaps.dropLast, IsClosedGap g
  last : ∀ g ∈ x.gaps.getLast?, IsGap g []
  apart : ∀ g ∈ x.gaps.tail.dropLast, ∃ c ∈ blanks, g.head? = some c

/-- If the last lexeme is `/`, no comment begins directly behind it. -/
def KeepsSlash (x : Layout) : Prop :=
  x.lexemes.getLast? = some ['/'] → ∀ g ∈ x.gaps.getLast?, ¬ ['/', '/'] <+: g

end Layout

/-- A token that is what its lexeme alone is scanned as, but for its line. -/
def Token.IsOfLexeme (t : Token) : Prop :=
  ∃ line line', tokensOf t.lexeme = .ok [{ t with line }, endToken line']

/-- What a token is, wherever it stands. -/
def Token.content (t : Token) : Kind × String × Value := (t.kind, t.lexeme, t.literal)

/-! ## §2. A gap only moves the line. -/

theorem IsClosedGap.isGap {gap : List Char} (h : IsClosedGap gap) (rest : List Char) :
    IsGap gap rest := by
  induction h with
  | nil => exact .nil
  | blank hc _ ih => exact .blank hc ih
  | comment hcs _ ih =>
    refine .comment hcs ?_ (.blank (by decide) ih)
    intro c hc
    exact (Option.some.inj hc).symm

theorem beginning_of_comment {cs rest : List Char} (hcs : '\n' ∉ cs)
    (hrest : ∀ c ∈ rest.head?, c = '\n') :
    beginning '/' ('/' :: cs ++ rest) = .piece (.gap ('/' :: '/' :: cs)) rest := by
  have hall : ∀ c ∈ '/' :: cs, decide (c ≠ '\n') = true := by
    intro c hc
    rw [decide_eq_true_iff]
    rintro rfl
    exact hcs ((List.mem_cons.1 hc).resolve_left (by decide))
  have htake : ('/' :: cs ++ rest).takeWhile (· ≠ '\n') = '/' :: cs := by
    rw [List.takeWhile_append_of_pos hall]
    cases rest with
    | nil => simp
    | cons c cs => simp [hrest c rfl]
  have hdrop : ('/' :: cs ++ rest).dropWhile (· ≠ '\n') = rest := by
    rw [List.dropWhile_append_of_pos hall]
    cases rest with
    | nil => simp
    | cons c cs => simp [hrest c rfl]
  show Beginning.piece (.gap ('/' :: ('/' :: cs ++ rest).takeWhile (· ≠ '\n')))
    (('/' :: cs ++ rest).dropWhile (· ≠ '\n')) = _
  rw [htake, hdrop]

/-- In front of a text a gap changes the line where it begins, and nothing
else. -/
theorem cut_gap_append {gap rest : List Char} (h : IsGap gap rest) :
    (cut (gap ++ rest)).stop = (cut rest).stop
      ∧ ∀ line, place line (cut (gap ++ rest)).pieces
          = place (line + Text.breaks gap) (cut rest).pieces := by
  induction h with
  | nil => exact ⟨rfl, fun _ => rfl⟩
  | @blank c gap rest hc _ ih =>
    rw [List.cons_append, cut_cons_of_beginning (beginning_of_blank hc _)]
    refine ⟨ih.1, fun line => ?_⟩
    rw [place, ih.2, Nat.add_assoc, ← Text.breaks_append]
    rfl
  | @comment cs gap rest hcs hend _ ih =>
    have hb := beginning_of_comment hcs hend
    rw [List.append_assoc, List.cons_append, cut_cons_of_beginning hb]
    refine ⟨ih.1, fun line => ?_⟩
    rw [place, ih.2, Nat.add_assoc, ← Text.breaks_append]

/-! ## §3. A lexeme alone, and in front of what ends it. -/

theorem beginning_of_single {c : Char} {k : Kind} (h : (c, k) ∈ Kind.singles)
    (cs : List Char) : beginning c cs = .piece (.lexeme k [c]) cs := by
  have hall : ∀ p ∈ Kind.singles, Kind.singles.lookup p.1 = some p.2 := by decide
  unfold beginning
  rw [hall _ h]

theorem lookup_keywords {w : String} {k : Kind} (h : (w, k) ∈ Kind.keywords) :
    Kind.keywords.lookup w = some k := by
  have hall : ∀ p ∈ Kind.keywords, Kind.keywords.lookup p.1 = some p.2 := by decide
  exact hall _ h

theorem beginning_of_word {c : Char} {cs : List Char} (hw : isWord (c :: cs) = true) :
    beginning c cs
      = .piece (.lexeme (Kind.ofWord (String.ofList (c :: cs))) (c :: cs)) [] := by
  simp only [isWord, Bool.and_eq_true, List.all_eq_true] at hw
  rw [beginning_of_startsWord hw.1, List.takeWhile_eq_self_iff.2 hw.2,
    List.dropWhile_eq_nil_iff.2 hw.2]

theorem beginning_of_isLexeme {c : Char} {cs : List Char} {k : Kind} {v : Value}
    (h : IsLexeme (c :: cs) k v) : beginning c cs = .piece (.lexeme k (c :: cs)) [] := by
  generalize hl : c :: cs = l at h
  cases h with
  | single hm =>
    obtain ⟨rfl, rfl⟩ := List.cons.inj hl
    exact beginning_of_single hm []
  | joined hm =>
    obtain ⟨rfl, rfl⟩ := List.cons.inj hl
    exact beginning_of_pair hm []
  | alone hm =>
    obtain ⟨rfl, rfl⟩ := List.cons.inj hl
    obtain ⟨hsingles, hpairs⟩ := lookup_pairs hm
    unfold beginning
    rw [hsingles, hpairs]
  | slash =>
    obtain ⟨rfl, rfl⟩ := List.cons.inj hl
    rfl
  | string hbody =>
    obtain ⟨rfl, rfl⟩ := List.cons.inj hl
    exact beginning_of_quote hbody []
  | whole _ hds =>
    subst hl
    rw [List.forall_mem_cons] at hds
    rw [beginning_of_digit hds.1, List.takeWhile_eq_self_iff.2 hds.2,
      List.dropWhile_eq_nil_iff.2 hds.2]
    simp [fractionOf]
  | @fraction ds fs hne hnf hds hfs =>
    match ds, fs, hne, hnf, hds, hfs with
    | d :: ds, f :: fs, _, _, hds, hfs =>
      rw [List.cons_append, List.cons.injEq] at hl
      obtain ⟨rfl, rfl⟩ := hl
      rw [List.forall_mem_cons] at hds hfs
      have hpoint : ('.' :: f :: fs).takeWhile Char.isDigit = [] := rfl
      have hdrop : ('.' :: f :: fs).dropWhile Char.isDigit = '.' :: f :: fs := rfl
      rw [beginning_of_digit hds.1, List.takeWhile_append_of_pos hds.2,
        List.dropWhile_append_of_pos hds.2, hpoint, hdrop, fractionOf_of_isDigit hfs.1,
        List.takeWhile_eq_self_iff.2 hfs.2, List.dropWhile_eq_nil_iff.2 hfs.2]
      simp
  | keyword hm =>
    subst hl
    rw [beginning_of_word (isWord_of_keyword hm), Kind.ofWord, lookup_keywords hm,
      Option.getD_some]
  | name hd hds hno =>
    obtain ⟨rfl, rfl⟩ := List.cons.inj hl
    have hw : isWord (c :: cs) = true := by
      simp only [isWord, Bool.and_eq_true, List.all_eq_true]
      exact ⟨hd, hds⟩
    have hlookup : Kind.keywords.lookup (String.ofList (c :: cs)) = none := by
      rw [List.lookup_eq_none_iff]
      intro p hp
      rw [bne_iff_ne]
      intro heq
      exact hno p.2 (heq ▸ hp)
    rw [beginning_of_word hw, Kind.ofWord, hlookup, Option.getD_none]

theorem IsLexeme.ne_nil {l : List Char} {k : Kind} {v : Value} (h : IsLexeme l k v) :
    l ≠ [] := by
  cases h with
  | whole hne _ => exact hne
  | keyword hm =>
    rintro rfl
    exact absurd (isWord_of_keyword hm) (by decide)
  | fraction _ _ _ _ => simp
  | _ => exact List.cons_ne_nil _ _

theorem IsLexeme.eq_slash {l : List Char} {v : Value} (h : IsLexeme l .slash v) : l = ['/'] := by
  have hsingles : ∀ p ∈ Kind.singles, p.2 ≠ .slash := by decide
  have hpairs : ∀ p ∈ Kind.pairs, p.2.1 ≠ .slash ∧ p.2.2 ≠ .slash := by decide
  have hkeywords : ∀ p ∈ Kind.keywords, p.2 ≠ .slash := by decide
  cases h with
  | slash => rfl
  | single hm => exact absurd rfl (hsingles _ hm)
  | joined hm => exact absurd rfl (hpairs _ hm).1
  | alone hm => exact absurd rfl (hpairs _ hm).2
  | keyword hm => exact absurd rfl (hkeywords _ hm)

theorem IsLexeme.literal_eq {l : List Char} {k : Kind} {v : Value} (h : IsLexeme l k v) :
    v = literalOf k l := by
  have hsingles : ∀ p ∈ Kind.singles,
      p.2 ∉ [Kind.string, .number, .identifier, .wordFalse, .wordTrue] := by decide
  have hpairs : ∀ p ∈ Kind.pairs,
      p.2.1 ∉ [Kind.string, .number, .identifier, .wordFalse, .wordTrue]
        ∧ p.2.2 ∉ [Kind.string, .number, .identifier, .wordFalse, .wordTrue] := by decide
  have hkeywords : ∀ p ∈ Kind.keywords, p.2 ∉ [Kind.string, .number, .identifier] := by decide
  cases h with
  | single hm => exact (literalOf_eq_nil (hsingles _ hm) _).symm
  | joined hm => exact (literalOf_eq_nil (hpairs _ hm).1 _).symm
  | alone hm => exact (literalOf_eq_nil (hpairs _ hm).2 _).symm
  | keyword hm => exact (literalOf_of_ne (hkeywords _ hm) _).symm
  | string _ => simp [literalOf]
  | slash | whole _ _ | fraction _ _ _ _ | name _ _ _ => rfl

/-- In front of what ends it, or of nothing, a lexeme is a piece. -/
theorem cut_lexeme_append {l rest : List Char} {k : Kind} {v : Value} (h : IsLexeme l k v)
    (hrest : ∀ d ∈ rest.head?, (Piece.lexeme k l).EndsAt d) :
    cut (l ++ rest) = ⟨.lexeme k l :: (cut rest).pieces, (cut rest).stop⟩ := by
  obtain ⟨c, cs, rfl⟩ := List.exists_cons_of_ne_nil h.ne_nil
  have hb := beginning_of_isLexeme h
  cases rest with
  | nil => rw [List.append_nil, cut_cons_of_beginning hb]
  | cons d more => exact cut_cons_of_beginning (beginning_append hb (hrest d rfl) more)

/-- A lexeme alone is one token. -/
theorem tokensOf_lexeme {l : List Char} {k : Kind} {v : Value} (h : IsLexeme l k v) :
    tokensOf (String.ofList l)
      = .ok [⟨k, String.ofList l, literalOf k l, (1 + Text.breaks l : Nat)⟩,
          endToken (1 + Text.breaks l)] := by
  have hcut : cut (l ++ []) = ⟨[.lexeme k l], .finished⟩ := by
    rw [cut_lexeme_append h (by simp), cut]
  rw [List.append_nil] at hcut
  rw [tokensOf_eq_ok_iff, String.toList_ofList, hcut]
  exact ⟨rfl, rfl⟩

/-- Alone, a lexeme is scanned as the token that it is in any text. -/
theorem isOfLexeme_token {l : List Char} {k : Kind} {v : Value} (h : IsLexeme l k v)
    (line : Int) : Token.IsOfLexeme ⟨k, String.ofList l, literalOf k l, line⟩ :=
  ⟨_, _, tokensOf_lexeme h⟩

/-! ## §4. Texts cut to their end. -/

/-- A text is cut to its end, and on whatever line it begins, its pieces are
placed as these lexemes. -/
structure PlacedAs (ls : List (List Char)) (text : List Char) : Prop where
  stop : (cut text).stop = .finished
  lexemes : ∀ line, (place line (cut text).pieces).map (fun t => t.lexeme.toList) = ls
  ofLexeme : ∀ line, ∀ t ∈ place line (cut text).pieces, t.IsOfLexeme

theorem PlacedAs.nil : PlacedAs [] [] := by
  have hcut : cut [] = ⟨[], .finished⟩ := by rw [cut]
  refine ⟨by rw [hcut], ?_, ?_⟩ <;> intro line
  · rw [hcut]
    rfl
  · rw [hcut]
    exact fun t ht => absurd ht List.not_mem_nil

theorem PlacedAs.gap {ls : List (List Char)} {gap rest : List Char} (hgap : IsGap gap rest)
    (h : PlacedAs ls rest) : PlacedAs ls (gap ++ rest) := by
  obtain ⟨hstop, hplace⟩ := cut_gap_append hgap
  refine ⟨hstop.trans h.stop, ?_, ?_⟩ <;> intro line
  · rw [hplace]
    exact h.lexemes _
  · rw [hplace]
    exact h.ofLexeme _

theorem PlacedAs.lexeme {ls : List (List Char)} {l rest : List Char} {k : Kind} {v : Value}
    (hl : IsLexeme l k v) (hrest : ∀ d ∈ rest.head?, (Piece.lexeme k l).EndsAt d)
    (h : PlacedAs ls rest) : PlacedAs (l :: ls) (l ++ rest) := by
  have hcut := cut_lexeme_append hl hrest
  refine ⟨by rw [hcut]; exact h.stop, ?_, ?_⟩ <;> intro line
  · rw [hcut, place, List.map_cons, h.lexemes, String.toList_ofList]
  · rw [hcut, place]
    exact List.forall_mem_cons.2 ⟨isOfLexeme_token hl _, h.ofLexeme _⟩

/-! ## §5. Proper layouts. -/

namespace Layout

variable {first gap l : List Char} {body : List (List Char × List Char)}

theorem text_cons :
    text ⟨first, (l, gap) :: body⟩ = first ++ (l ++ text ⟨gap, body⟩) := by
  simp only [text, List.flatMap_cons, List.append_assoc]

/-- Behind the first gap and the first lexeme, a proper layout is one again. -/
theorem IsProper.tail (h : IsProper ⟨first, (l, gap) :: body⟩) : IsProper ⟨gap, body⟩ := by
  obtain ⟨hlexeme, hclosed, hlast, hapart⟩ := h
  refine ⟨(List.forall_mem_cons.1 hlexeme).2, (List.forall_mem_cons.1 hclosed).2, ?_, ?_⟩
  · exact hlast
  · cases body with
    | nil => exact fun g hg => absurd hg List.not_mem_nil
    | cons p body => exact (List.forall_mem_cons.1 hapart).2

theorem KeepsSlash.tail (h : KeepsSlash ⟨first, (l, gap) :: body⟩) : KeepsSlash ⟨gap, body⟩ := by
  cases body with
  | nil => exact fun hlast => by cases hlast
  | cons p body => exact h

/-- What follows the first lexeme of a proper layout ends it. -/
theorem IsProper.endsAt {k : Kind} {v : Value} (h : IsProper ⟨first, (l, gap) :: body⟩)
    (hslash : KeepsSlash ⟨first, (l, gap) :: body⟩) (hl : IsLexeme l k v) :
    ∀ d ∈ (text ⟨gap, body⟩).head?, (Piece.lexeme k l).EndsAt d := by
  cases body with
  | nil =>
    have hgap : IsGap gap [] := h.last gap rfl
    intro d hd
    cases hgap with
    | nil => cases hd
    | blank hc _ =>
      obtain rfl := Option.some.inj hd
      exact .inl hc
    | comment _ _ _ =>
      obtain rfl := Option.some.inj hd
      refine .inr ⟨rfl, ?_⟩
      rintro rfl
      obtain rfl := hl.eq_slash
      exact hslash rfl _ rfl ⟨_, rfl⟩
  | cons p body =>
    obtain ⟨c, hc, hhead⟩ := h.apart gap List.mem_cons_self
    obtain ⟨gap', rfl⟩ := List.head?_eq_some_iff.1 hhead
    intro d hd
    obtain rfl := Option.some.inj hd
    exact .inl hc

/-- **Layouts.**  A proper layout is cut into its lexemes. -/
theorem IsProper.placedAs (h : IsProper ⟨first, body⟩) (hslash : KeepsSlash ⟨first, body⟩) :
    PlacedAs (lexemes ⟨first, body⟩) (text ⟨first, body⟩) := by
  -- on the lexemes; the gap in front of the first one changes with them
  induction body generalizing first with
  | nil =>
    have hgap : IsGap first [] := h.last first rfl
    exact PlacedAs.nil.gap hgap
  | cons p body ih =>
    obtain ⟨l, gap⟩ := p
    obtain ⟨k, v, hl⟩ := h.lexeme l List.mem_cons_self
    have hclosed : IsClosedGap first := h.closed first List.mem_cons_self
    have hrest := (ih h.tail hslash.tail).lexeme hl (h.endsAt hslash hl)
    rw [text_cons]
    exact hrest.gap (hclosed.isGap _)

end Layout

/-! ## §6. Tokens. -/

theorem PlacedAs.exists_tokensOf {ls : List (List Char)} {text : List Char}
    (h : PlacedAs ls text) :
    ∃ ts line, tokensOf (String.ofList text) = .ok (ts ++ [endToken line])
      ∧ ts.map (fun t => t.lexeme.toList) = ls ∧ ∀ t ∈ ts, t.IsOfLexeme := by
  refine ⟨place 1 (cut text).pieces, 1 + text.count '\n', ?_, h.lexemes 1, h.ofLexeme 1⟩
  rw [tokensOf_eq_ok_iff, String.toList_ofList]
  exact ⟨h.stop, rfl⟩

/-- Single blanks are a layout of any lexemes. -/
theorem placedAs_intercalate {ls : List (List Char)} (h : ∀ l ∈ ls, ∃ k v, IsLexeme l k v) :
    PlacedAs ls ([' '].intercalate ls) := by
  induction ls with
  | nil => exact .nil
  | cons l ls ih =>
    obtain ⟨⟨k, v, hl⟩, hls⟩ := List.forall_mem_cons.1 h
    cases ls with
    | nil =>
      have halone := PlacedAs.nil.lexeme hl (by simp)
      rw [List.append_nil] at halone
      rwa [List.intercalate_singleton]
    | cons l' ls =>
      have hblank : PlacedAs (l' :: ls) ([' '] ++ [' '].intercalate (l' :: ls)) :=
        (ih hls).gap (.blank (by decide) .nil)
      rw [List.intercalate_cons_cons, List.append_assoc]
      refine hblank.lexeme hl ?_
      intro d hd
      obtain rfl := Option.some.inj hd
      exact .inl (by decide)

theorem Partition.isLexeme {text : List Char} {ts : List Token} (h : Partition text ts) :
    ∀ t ∈ ts, IsLexeme t.lexeme.toList t.kind t.literal := by
  induction h with
  | last _ => simp
  | token _ hlongest _ ih => exact List.forall_mem_cons.2 ⟨hlongest.lexeme, ih⟩

/-- What holds of lexemes and of the end token holds of scanned tokens. -/
theorem forall_mem_of_tokensOf {source : String} {tokens : List Token}
    (h : tokensOf source = .ok tokens) {P : Token → Prop}
    (hlexeme : ∀ t : Token, IsLexeme t.lexeme.toList t.kind t.literal → P t)
    (hend : ∀ line, P (endToken line)) : ∀ t ∈ tokens, P t := by
  obtain ⟨hstop, rfl⟩ := (tokensOf_eq_ok_iff source tokens).1 h
  have hplaced := (partition_of_cut source.toList hstop 1).isLexeme
  rw [List.forall_mem_append, List.forall_mem_singleton]
  exact ⟨fun t ht => hlexeme t (hplaced t ht), hend _⟩

theorem IsLexeme.isOfLexeme {t : Token} (h : IsLexeme t.lexeme.toList t.kind t.literal) :
    t.IsOfLexeme := by
  have htoken := isOfLexeme_token h t.line
  rwa [← h.literal_eq, String.ofList_toList] at htoken

/-- The lexeme alone decides what a token is. -/
theorem Token.IsOfLexeme.content_eq {t t' : Token} (h : t.IsOfLexeme) (h' : t'.IsOfLexeme)
    (hlexeme : t.lexeme.toList = t'.lexeme.toList) : t.content = t'.content := by
  obtain ⟨line, end', ht⟩ := h
  obtain ⟨line', end'', ht'⟩ := h'
  have hsame : t.lexeme = t'.lexeme := String.toList_inj.1 hlexeme
  rw [hsame, ht'] at ht
  obtain ⟨hkind, -, hliteral, -⟩ := Token.mk.inj (List.cons.inj (Except.ok.inj ht)).1
  rw [Token.content, ← hkind, hsame, ← hliteral, Token.content]

theorem map_content_eq {ts ts' : List Token} (h : ∀ t ∈ ts, t.IsOfLexeme)
    (h' : ∀ t ∈ ts', t.IsOfLexeme)
    (hlexemes : ts.map (fun t => t.lexeme.toList) = ts'.map fun t => t.lexeme.toList) :
    ts.map Token.content = ts'.map Token.content := by
  induction ts generalizing ts' with
  | nil =>
    obtain rfl := List.map_eq_nil_iff.1 hlexemes.symm
    rfl
  | cons t ts ih =>
    obtain ⟨t', us, rfl, hfirst, hrest⟩ := List.map_eq_cons_iff.1 hlexemes.symm
    rw [List.forall_mem_cons] at h h'
    rw [List.map_cons, List.map_cons, h.1.content_eq h'.1 hfirst.symm, ih h.2 h'.2 hrest.symm]

/-- **LAYOUT.**  Every proper layout that keeps a last `/` apart is scanned as
its lexemes, each of them as it is alone.  So the lexemes of a source text
with single blanks between them are scanned as what they were in it. -/
theorem tokensOf_layout :
    (∀ x : Layout, x.IsProper → x.KeepsSlash → ∃ ts line,
        tokensOf (String.ofList x.text) = .ok (ts ++ [endToken line])
          ∧ ts.map (fun t => t.lexeme.toList) = x.lexemes ∧ ∀ t ∈ ts, t.IsOfLexeme)
      ∧ ∀ source ts line, tokensOf source = .ok (ts ++ [endToken line]) → ∃ ts' line',
          tokensOf (" ".intercalate (ts.map Token.lexeme)) = .ok (ts' ++ [endToken line'])
            ∧ ts'.map Token.content = ts.map Token.content := by
  constructor
  · intro x h hslash
    exact (h.placedAs hslash).exists_tokensOf
  · intro source ts line hsource
    have hpartition : Partition source.toList ts := by
      obtain ⟨hstop, htokens⟩ := (tokensOf_eq_ok_iff source _).1 hsource
      rw [(List.append_inj' htokens rfl).1]
      exact partition_of_cut source.toList hstop 1
    have hlexemes : ∀ l ∈ ts.map (fun t => t.lexeme.toList), ∃ k v, IsLexeme l k v := by
      intro l hl
      obtain ⟨t, ht, rfl⟩ := List.mem_map.1 hl
      exact ⟨_, _, hpartition.isLexeme t ht⟩
    have htext : String.ofList ([' '].intercalate (ts.map fun t => t.lexeme.toList))
        = " ".intercalate (ts.map Token.lexeme) := by
      rw [← String.toList_inj, String.toList_ofList, String.toList_intercalate, List.map_map]
      rfl
    obtain ⟨ts', line', hts', hsame, halone⟩ := (placedAs_intercalate hlexemes).exists_tokensOf
    rw [htext] at hts'
    refine ⟨ts', line', hts', map_content_eq halone ?_ hsame⟩
    intro t ht
    exact (hpartition.isLexeme t ht).isOfLexeme

/-- A name, `!`, `=` and two `/` with a comment in every gap, the last one open. -/
def commentedLayout : Layout :=
  ⟨['/', '/', '\n'], [(['a'], ['\t', '/', '/', '/', '\n']), (['!'], [' ']), (['='], ['\n']),
    (['/'], ['\r', '/', '/', '\n']), (['/'], [' ', '/', '/', 'b'])]⟩

theorem commentedLayout_isProper : commentedLayout.IsProper := by
  have hbreak : IsClosedGap ['\n'] := .blank (by decide) .nil
  have hcomment {c : Char} (hc : c ∈ blanks) : IsClosedGap [c, '/', '/', '\n'] :=
    .blank hc (@IsClosedGap.comment [] [] (by simp) .nil)
  refine ⟨?_, ?_, ?_, ?_⟩
  · have ha := @isLexeme_word 'a' [] (by decide) (by simp)
    have hbang : ('!', Kind.bangEqual, Kind.bang) ∈ Kind.pairs := by decide
    have hequal : ('=', Kind.equalEqual, Kind.equal) ∈ Kind.pairs := by decide
    simp only [Layout.lexemes, commentedLayout, List.map_cons, List.map_nil, List.forall_mem_cons]
    exact ⟨⟨_, _, ha⟩, ⟨_, _, .alone hbang⟩, ⟨_, _, .alone hequal⟩, ⟨_, _, .slash⟩,
      ⟨_, _, .slash⟩, by simp⟩
  · simp only [Layout.gaps, commentedLayout, List.map_cons, List.map_nil,
      List.dropLast_cons_cons, List.forall_mem_cons]
    refine ⟨@IsClosedGap.comment [] [] (by simp) .nil, ?_, .blank (by decide) .nil, hbreak,
      hcomment (by decide), by simp⟩
    exact .blank (by decide) (@IsClosedGap.comment ['/'] [] (by decide) .nil)
  · intro g hg
    obtain rfl := Option.some.inj hg
    exact .blank (by decide) (@IsGap.comment ['b'] [] [] (by decide) (by simp) .nil)
  · simp only [Layout.gaps, commentedLayout, List.map_cons, List.map_nil, List.tail_cons,
      List.dropLast_cons_cons, List.forall_mem_cons]
    exact ⟨⟨'\t', by decide, rfl⟩, ⟨' ', by decide, rfl⟩, ⟨'\n', by decide, rfl⟩,
      ⟨'\r', by decide, rfl⟩, by simp⟩

/-- The five lexemes are kept apart there, and with single blanks too. -/
theorem tokensOf_layout_commented :
    (commentedLayout.IsProper ∧ commentedLayout.KeepsSlash ∧ ∃ ts line,
        tokensOf "//\na\t///\n! =\n/\r//\n/ //b" = .ok (ts ++ [endToken line])
          ∧ ts.map (fun t => t.lexeme.toList) = [['a'], ['!'], ['='], ['/'], ['/']]
          ∧ ∀ t ∈ ts, t.IsOfLexeme)
      ∧ tokensOf "a!\"\n\"" = .ok ([⟨.identifier, "a", .name "a", 1⟩, ⟨.bang, "!", .nil, 1⟩,
          ⟨.string, "\"\n\"", .text "\n", 2⟩] ++ [endToken 2])
      ∧ ∃ ts' line', tokensOf "a ! \"\n\"" = .ok (ts' ++ [endToken line'])
          ∧ ts'.map Token.content = [(.identifier, "a", .name "a"), (.bang, "!", .nil),
              (.string, "\"\n\"", .text "\n")] := by
  have hslash : commentedLayout.KeepsSlash := by
    intro _ g hg
    obtain rfl := Option.some.inj hg
    decide
  have hcut : cut "a!\"\n\"".toList = ⟨[.lexeme .identifier ['a'], .lexeme .bang ['!'],
      .lexeme .string ['\x22', '\n', '\x22']], .finished⟩ := by
    cbv
  have hsource : tokensOf "a!\"\n\"" = .ok ([⟨.identifier, "a", .name "a", 1⟩,
      ⟨.bang, "!", .nil, 1⟩, ⟨.string, "\"\n\"", .text "\n", 2⟩] ++ [endToken 2]) := by
    rw [tokensOf_eq_ok_iff, hcut]
    exact ⟨rfl, rfl⟩
  exact ⟨⟨commentedLayout_isProper, hslash,
    tokensOf_layout.1 commentedLayout commentedLayout_isProper hslash⟩, hsource,
    tokensOf_layout.2 _ _ _ hsource⟩

/-- A comment directly behind a last `/` takes the `/` with it. -/
theorem layout_slash_lost :
    ¬ ∀ x : Layout, x.IsProper → ∃ ts line,
        tokensOf (String.ofList x.text) = .ok (ts ++ [endToken line])
          ∧ ts.map (fun t => t.lexeme.toList) = x.lexemes ∧ ∀ t ∈ ts, t.IsOfLexeme := by
  intro h
  have hproper : Layout.IsProper ⟨[], [(['/'], ['/', '/'])]⟩ := by
    refine ⟨?_, ?_, ?_, ?_⟩
    · exact List.forall_mem_singleton.2 ⟨_, _, .slash⟩
    · exact List.forall_mem_singleton.2 .nil
    · intro g hg
      obtain rfl := Option.some.inj hg
      exact @IsGap.comment [] [] [] (by simp) (by simp) .nil
    · exact fun g hg => absurd hg List.not_mem_nil
  have hcut : cut "///".toList = ⟨[.gap ['/', '/', '/']], .finished⟩ := by cbv
  have hnone : tokensOf "///" = .ok [endToken 1] := by
    rw [tokensOf_eq_ok_iff, hcut]
    exact ⟨rfl, rfl⟩
  obtain ⟨ts, line, htokens, hlexemes, -⟩ := h _ hproper
  have hsplit : [] ++ [endToken 1] = ts ++ [endToken line] :=
    Except.ok.inj (hnone.symm.trans htokens)
  obtain ⟨rfl, -⟩ := List.append_inj' hsplit rfl
  cases hlexemes

end LoxScript
