/-
  LoxScript.Proofs.Scan.Beginning
  ────────────────────────────────
  What a text begins with, class by class of its first character.

  `beginning` asks for the classes one after another.  They are disjoint, so
  the order is no part of what it does, and each class that can take more
  than one character has a lemma of its own.  Two facts follow for every text:

      length_le_of_beginning — no lexeme at the start of the text is longer
                               than the first piece
      beginning_isFirst      — the first piece is a blank, a comment or a
                               lexeme, and then the longest one
-/
import LoxScript.Proofs.Lexicon

namespace LoxScript

/-! ## §1. Looking a character up. -/

theorem lookup_eq_none_of_forall {α : Type} {l : List (Char × α)} {q : Char → Bool} {c : Char}
    (hl : ∀ p ∈ l, q p.1 = false) (hc : q c = true) : l.lookup c = none := by
  rw [List.lookup_eq_none_iff]
  intro p hp
  rw [bne_iff_ne]
  rintro rfl
  rw [hl p hp] at hc
  exact absurd hc (by decide)

theorem mem_of_lookup_eq_some {α β : Type} [BEq α] [LawfulBEq α] {l : List (α × β)} {a : α}
    {b : β} (h : l.lookup a = some b) : (a, b) ∈ l := by
  obtain ⟨l₁, l₂, rfl, _⟩ := List.lookup_eq_some_iff.1 h
  simp

theorem lookup_pairs {c : Char} {k k' : Kind} (h : (c, k, k') ∈ Kind.pairs) :
    Kind.singles.lookup c = none ∧ Kind.pairs.lookup c = some (k, k') := by
  have : ∀ p ∈ Kind.pairs, Kind.singles.lookup p.1 = none ∧ Kind.pairs.lookup p.1 = some p.2 := by
    decide
  exact this _ h

/-! ## §2. Taking as much as possible. -/

theorem forall_mem_takeWhile {α : Type} (p : α → Bool) (l : List α) :
    ∀ a ∈ l.takeWhile p, p a = true := by
  have hall := List.all_takeWhile (p := p) (l := l)
  exact fun a ha => List.all_eq_true.1 hall a ha

theorem not_mem_takeWhile_ne (c : Char) (cs : List Char) : c ∉ cs.takeWhile (· ≠ c) := by
  intro hc
  have hne := forall_mem_takeWhile _ _ c hc
  simp at hne

theorem head?_dropWhile_ne (c : Char) (cs : List Char) :
    ∀ d ∈ (cs.dropWhile (· ≠ c)).head?, d = c := by
  intro d hd
  have hfirst := List.head?_dropWhile_not (· ≠ c) cs
  rw [Option.mem_def.1 hd] at hfirst
  simpa using hfirst

/-! ## §3. One class of characters each. -/

theorem beginning_of_pair {c : Char} {k k' : Kind} (h : (c, k, k') ∈ Kind.pairs)
    (cs : List Char) : beginning c ('=' :: cs) = .piece (.lexeme k [c, '=']) cs := by
  obtain ⟨hsingles, hpairs⟩ := lookup_pairs h
  unfold beginning
  rw [hsingles, hpairs]
  rfl

theorem beginning_of_quote {body : List Char} (h : '\x22' ∉ body) (rest : List Char) :
    beginning '\x22' (body ++ '\x22' :: rest)
      = .piece (.lexeme .string ('\x22' :: body ++ ['\x22'])) rest := by
  have hbody : ∀ c ∈ body, decide (c ≠ '\x22') = true := by
    intro c hc
    rw [decide_eq_true_iff]
    rintro rfl
    exact h hc
  have htake : (body ++ '\x22' :: rest).takeWhile (· ≠ '\x22') = body := by
    rw [List.takeWhile_append_of_pos hbody]
    simp
  have hdrop : (body ++ '\x22' :: rest).dropWhile (· ≠ '\x22') = '\x22' :: rest := by
    rw [List.dropWhile_append_of_pos hbody]
    simp
  have hnone : Kind.singles.lookup '\x22' = none ∧ Kind.pairs.lookup '\x22' = none := ⟨rfl, rfl⟩
  unfold beginning
  rw [hnone.1, hnone.2, hdrop, htake]
  rfl

/-- A character that satisfies a test which all marks fail begins a number or
a word, or nothing. -/
theorem beginning_of_plain {q : Char → Bool} {c : Char} (hc : q c = true)
    (hsingles : ∀ p ∈ Kind.singles, q p.1 = false) (hpairs : ∀ p ∈ Kind.pairs, q p.1 = false)
    (hmarks : ('/' :: '\x22' :: blanks).any q = false) (cs : List Char) :
    beginning c cs
      = if c.isDigit then
          .piece (.lexeme .number
              (c :: cs.takeWhile Char.isDigit ++ (fractionOf (cs.dropWhile Char.isDigit)).1))
            (fractionOf (cs.dropWhile Char.isDigit)).2
        else if startsWord c then
          .piece (.lexeme (Kind.ofWord (String.ofList (c :: cs.takeWhile continuesWord)))
              (c :: cs.takeWhile continuesWord))
            (cs.dropWhile continuesWord)
        else .stray := by
  have hne : ∀ m ∈ '/' :: '\x22' :: blanks, c ≠ m := by
    rintro m hm rfl
    exact List.any_eq_false.1 hmarks _ hm hc
  simp only [blanks, List.forall_mem_cons] at hne
  obtain ⟨hslash, hquote, hspace, htab, hreturn, hbreak, _⟩ := hne
  unfold beginning
  rw [lookup_eq_none_of_forall hsingles hc, lookup_eq_none_of_forall hpairs hc]
  simp [isBlank, hslash, hquote, hspace, htab, hreturn, hbreak]

theorem beginning_of_digit {c : Char} (h : c.isDigit) (cs : List Char) :
    beginning c cs
      = .piece (.lexeme .number
            (c :: cs.takeWhile Char.isDigit ++ (fractionOf (cs.dropWhile Char.isDigit)).1))
          (fractionOf (cs.dropWhile Char.isDigit)).2 := by
  rw [beginning_of_plain (q := Char.isDigit) h (by decide) (by decide) (by decide), if_pos h]

theorem isDigit_of_startsWord {c : Char} (h : startsWord c) : c.isDigit = false := by
  simp only [startsWord, Char.isAlpha, Char.isUpper, Char.isLower, Bool.or_eq_true,
    Bool.and_eq_true, decide_eq_true_eq] at h
  simp only [Char.isDigit]
  rcases h with (h | h) | rfl
  · grind
  · grind
  · rfl

theorem beginning_of_startsWord {c : Char} (h : startsWord c) (cs : List Char) :
    beginning c cs
      = .piece (.lexeme (Kind.ofWord (String.ofList (c :: cs.takeWhile continuesWord)))
            (c :: cs.takeWhile continuesWord))
          (cs.dropWhile continuesWord) := by
  have hdigit : ¬ c.isDigit := by rw [isDigit_of_startsWord h]; decide
  rw [beginning_of_plain (q := startsWord) h (by decide) (by decide) (by decide),
    if_neg hdigit, if_pos h]

/-! ## §4. Fractions. -/

theorem fractionOf_cases (cs : List Char) :
    (fractionOf cs).1 = []
      ∨ ∃ fs, (fractionOf cs).1 = '.' :: fs ∧ fs ≠ [] ∧ ∀ d ∈ fs, d.isDigit := by
  unfold fractionOf
  split
  · next d cs =>
    by_cases hd : d.isDigit
    · rw [if_pos hd]
      refine .inr ⟨_, rfl, List.cons_ne_nil _ _, ?_⟩
      intro f hf
      rcases List.mem_cons.1 hf with rfl | hf
      · exact hd
      · exact forall_mem_takeWhile _ _ f hf
    · rw [if_neg hd]
      exact .inl rfl
  · exact .inl rfl

theorem fractionOf_point {f : Char} {fs : List Char} (hf : f.isDigit)
    (hfs : ∀ d ∈ fs, d.isDigit) (rest : List Char) :
    (fractionOf ('.' :: f :: (fs ++ rest))).1 = '.' :: f :: (fs ++ rest.takeWhile Char.isDigit) := by
  show (if f.isDigit then
      ('.' :: f :: (fs ++ rest).takeWhile Char.isDigit, (fs ++ rest).dropWhile Char.isDigit)
    else ([], _)).1 = _
  rw [if_pos hf, List.takeWhile_append_of_pos hfs]

/-! ## §5. Words. -/

/-- A letter or underscore, and then letters, digits and underscores. -/
def isWord : List Char → Bool
  | [] => false
  | c :: cs => startsWord c && cs.all continuesWord

theorem isWord_of_keyword {w : List Char} {k : Kind} (h : (String.ofList w, k) ∈ Kind.keywords) :
    isWord w = true := by
  have hall : ∀ p ∈ Kind.keywords, isWord p.1.toList = true := by decide
  simpa using hall _ h

theorem length_le_of_isWord {c : Char} {cs w more rest : List Char} {p : Piece}
    (hw : isWord w = true) (hmore : w ++ more = c :: cs)
    (hb : beginning c cs = .piece p rest) : w.length ≤ p.text.length := by
  match w, hw with
  | d :: ds, hw =>
    obtain ⟨rfl, rfl⟩ := List.cons.inj hmore
    simp only [isWord, Bool.and_eq_true, List.all_eq_true] at hw
    rw [beginning_of_startsWord hw.1] at hb
    obtain ⟨rfl, -⟩ := Beginning.piece.inj hb
    show _ ≤ (d :: (ds ++ more).takeWhile continuesWord).length
    rw [List.takeWhile_append_of_pos hw.2, List.length_cons, List.length_cons,
      List.length_append]
    omega

/-! ## §6. The first piece is maximal. -/

/-- A lexeme at the start of a text is no longer than its first piece. -/
theorem length_le_of_beginning {c : Char} {cs l rest : List Char} {k : Kind} {v : Value}
    {p : Piece} (hl : IsLexeme l k v) (hstarts : l <+: c :: cs)
    (hb : beginning c cs = .piece p rest) : l.length ≤ p.text.length := by
  obtain ⟨more, hmore⟩ := hstarts
  have hone : 1 ≤ p.text.length := by
    obtain ⟨t, ht, _⟩ := beginning_text hb
    rw [ht, List.length_cons]
    omega
  cases hl with
  -- one character is never too long; the others are read by their own class
  | single _ => exact hone
  | alone _ => exact hone
  | slash => exact hone
  | joined hm =>
    obtain ⟨rfl, rfl⟩ := List.cons.inj hmore
    have hpair : Beginning.piece (.lexeme k [_, '=']) more = .piece p rest :=
      (beginning_of_pair hm more).symm.trans hb
    obtain ⟨rfl, -⟩ := Beginning.piece.inj hpair
    exact Nat.le_refl _
  | @string body hbody =>
    have htext : '\x22' :: (body ++ '\x22' :: more) = c :: cs := by
      rw [← hmore, List.append_assoc]
      rfl
    obtain ⟨rfl, rfl⟩ := List.cons.inj htext
    rw [beginning_of_quote hbody] at hb
    obtain ⟨rfl, -⟩ := Beginning.piece.inj hb
    exact Nat.le_refl _
  | whole hne hds =>
    match l, hne, hds with
    | d :: ds, _, hds =>
      obtain ⟨rfl, rfl⟩ := List.cons.inj hmore
      rw [List.forall_mem_cons] at hds
      rw [beginning_of_digit hds.1] at hb
      obtain ⟨rfl, -⟩ := Beginning.piece.inj hb
      show _ ≤ (d :: (ds ++ more).takeWhile Char.isDigit ++ _).length
      rw [List.takeWhile_append_of_pos hds.2]
      simp only [List.length_append, List.length_cons]
      omega
  | @fraction ds fs hne hnf hds hfs =>
    match ds, fs, hne, hnf, hds, hfs with
    | d :: ds, f :: fs, _, _, hds, hfs =>
      have htext : d :: (ds ++ '.' :: f :: (fs ++ more)) = c :: cs := by
        rw [← hmore]
        simp
      obtain ⟨rfl, rfl⟩ := List.cons.inj htext
      rw [List.forall_mem_cons] at hds hfs
      rw [beginning_of_digit hds.1] at hb
      obtain ⟨rfl, -⟩ := Beginning.piece.inj hb
      show _ ≤ (d :: (ds ++ '.' :: f :: (fs ++ more)).takeWhile Char.isDigit ++ _).length
      -- the digits end at the point, and the point has a digit behind it
      have hpoint : ('.' :: f :: (fs ++ more)).takeWhile Char.isDigit = [] := rfl
      have hdrop : ('.' :: f :: (fs ++ more)).dropWhile Char.isDigit
          = '.' :: f :: (fs ++ more) := rfl
      rw [List.takeWhile_append_of_pos hds.2, List.dropWhile_append_of_pos hds.2, hpoint, hdrop,
        fractionOf_point hfs.1 hfs.2]
      simp only [List.length_append, List.length_cons]
      omega
  | keyword hm => exact length_le_of_isWord (isWord_of_keyword hm) hmore hb
  | @name d ds hd hds _ =>
    have hw : isWord (d :: ds) = true := by
      simp only [isWord, Bool.and_eq_true, List.all_eq_true]
      exact ⟨hd, hds⟩
    exact length_le_of_isWord hw hmore hb

/-! ## §7. What the first piece is. -/

theorem literalOf_of_ne {k : Kind} (hk : k ∉ [Kind.string, .number, .identifier])
    (text : List Char) : literalOf k text = (Kind.constants.lookup k).getD .nil := by
  cases k <;> first | rfl | exact absurd (by decide) hk

theorem literalOf_eq_nil {k : Kind}
    (hk : k ∉ [Kind.string, .number, .identifier, .wordFalse, .wordTrue]) (text : List Char) :
    literalOf k text = .nil := by
  cases k <;> first | rfl | exact absurd (by decide) hk

theorem isLexeme_single {c : Char} {k : Kind} (h : (c, k) ∈ Kind.singles) :
    IsLexeme [c] k (literalOf k [c]) := by
  have hk : ∀ p ∈ Kind.singles,
      p.2 ∉ [Kind.string, .number, .identifier, .wordFalse, .wordTrue] := by decide
  rw [literalOf_eq_nil (hk _ h)]
  exact .single h

theorem isLexeme_pair {c : Char} {k k' : Kind} (h : (c, k, k') ∈ Kind.pairs) :
    IsLexeme [c, '='] k (literalOf k [c, '=']) ∧ IsLexeme [c] k' (literalOf k' [c]) := by
  have hk : ∀ p ∈ Kind.pairs,
      p.2.1 ∉ [Kind.string, .number, .identifier, .wordFalse, .wordTrue]
        ∧ p.2.2 ∉ [Kind.string, .number, .identifier, .wordFalse, .wordTrue] := by decide
  rw [literalOf_eq_nil (hk _ h).1, literalOf_eq_nil (hk _ h).2]
  exact ⟨.joined h, .alone h⟩

theorem isLexeme_quote {body : List Char} (h : '\x22' ∉ body) :
    IsLexeme ('\x22' :: body ++ ['\x22']) .string
      (literalOf .string ('\x22' :: body ++ ['\x22'])) := by
  have htext : (('\x22' :: body ++ ['\x22']).drop 1).dropLast = body := by simp
  show IsLexeme _ _ (.text (String.ofList (('\x22' :: body ++ ['\x22']).drop 1).dropLast))
  rw [htext]
  exact .string h

theorem isLexeme_digits {c : Char} (hc : c.isDigit) (cs : List Char) :
    IsLexeme (c :: cs.takeWhile Char.isDigit ++ (fractionOf (cs.dropWhile Char.isDigit)).1) .number
      (literalOf .number
        (c :: cs.takeWhile Char.isDigit ++ (fractionOf (cs.dropWhile Char.isDigit)).1)) := by
  have hdigits : ∀ d ∈ c :: cs.takeWhile Char.isDigit, d.isDigit :=
    List.forall_mem_cons.2 ⟨hc, forall_mem_takeWhile _ cs⟩
  rcases fractionOf_cases (cs.dropWhile Char.isDigit) with hnone | ⟨fs, hsome, hne, hfs⟩
  · rw [hnone, List.append_nil]
    exact .whole (List.cons_ne_nil _ _) hdigits
  · rw [hsome]
    exact .fraction (List.cons_ne_nil _ _) hne hdigits hfs

theorem isLexeme_word {c : Char} {cs : List Char} (hc : startsWord c)
    (hcs : ∀ d ∈ cs, continuesWord d) :
    IsLexeme (c :: cs) (Kind.ofWord (String.ofList (c :: cs)))
      (literalOf (Kind.ofWord (String.ofList (c :: cs))) (c :: cs)) := by
  unfold Kind.ofWord
  cases hword : Kind.keywords.lookup (String.ofList (c :: cs)) with
  | none =>
    refine .name hc hcs ?_
    intro k hk
    exact absurd (List.lookup_eq_none_iff.1 hword _ hk) (by simp)
  | some k =>
    have hk := mem_of_lookup_eq_some hword
    have hplain : ∀ p ∈ Kind.keywords, p.2 ∉ [Kind.string, .number, .identifier] := by decide
    rw [Option.getD_some, literalOf_of_ne (hplain _ hk)]
    exact .keyword hk

/-- What the first piece of a text is: a blank, a comment, or the longest
lexeme. -/
inductive Piece.IsFirst (text rest : List Char) : Piece → Prop where
  | blank {c : Char} : c ∈ blanks → IsFirst text rest (.gap [c])
  | comment {body : List Char} : '\n' ∉ body → (∀ c ∈ rest.head?, c = '\n') →
      IsFirst text rest (.gap ('/' :: '/' :: body))
  | lexeme {k : Kind} {l : List Char} : IsLongest l text k (literalOf k l) →
      IsFirst text rest (.lexeme k l)

theorem isFirst_of_isLexeme {c : Char} {cs l rest : List Char} {k : Kind}
    (hb : beginning c cs = .piece (.lexeme k l) rest) (hl : IsLexeme l k (literalOf k l)) :
    (Piece.lexeme k l).IsFirst (c :: cs) rest := by
  refine .lexeme ⟨hl, ?_, ?_, ?_⟩
  · obtain ⟨t, ht, rfl⟩ := beginning_text hb
    have hl : l = c :: t := ht
    exact ⟨rest, by rw [hl]; rfl⟩
  · rintro ⟨more, hmore⟩
    obtain ⟨rfl, rfl⟩ := List.cons.inj hmore
    cases hb
  · intro l' k' v' hl' hstarts
    exact length_le_of_beginning hl' hstarts hb

/-- **The first piece.** -/
theorem beginning_isFirst {c : Char} {cs rest : List Char} {p : Piece}
    (hb : beginning c cs = .piece p rest) : p.IsFirst (c :: cs) rest := by
  have hb' := hb
  unfold beginning at hb'
  split at hb'
  -- a character by itself
  · next k _ hk =>
    obtain ⟨rfl, rfl⟩ := Beginning.piece.inj hb'
    exact isFirst_of_isLexeme hb (isLexeme_single (mem_of_lookup_eq_some hk))
  -- a character before `=`, or without it
  · next joined alone _ hk =>
    have hpair := isLexeme_pair (mem_of_lookup_eq_some hk)
    split at hb'
    · obtain ⟨rfl, rfl⟩ := Beginning.piece.inj hb'
      exact isFirst_of_isLexeme hb hpair.1
    · obtain ⟨rfl, rfl⟩ := Beginning.piece.inj hb'
      exact isFirst_of_isLexeme hb hpair.2
  · split at hb'
    -- a comment before the operator
    · next hslash =>
      subst hslash
      split at hb'
      · next cs' =>
        obtain ⟨rfl, rfl⟩ := Beginning.piece.inj hb'
        exact .comment (not_mem_takeWhile_ne _ cs') (head?_dropWhile_ne _ _)
      · obtain ⟨rfl, rfl⟩ := Beginning.piece.inj hb'
        exact isFirst_of_isLexeme hb .slash
    split at hb'
    · next hblank =>
      obtain ⟨rfl, rfl⟩ := Beginning.piece.inj hb'
      exact .blank (by simpa [blanks, isBlank, or_assoc] using hblank)
    split at hb'
    -- a string, if what is dropped is not everything
    · next hquote =>
      subst hquote
      split at hb'
      · cases hb'
      · next q rest' hdrop =>
        obtain ⟨rfl, rfl⟩ := Beginning.piece.inj hb'
        have hq : q = '\x22' := head?_dropWhile_ne '\x22' cs q (by rw [hdrop]; rfl)
        subst hq
        exact isFirst_of_isLexeme hb (isLexeme_quote (not_mem_takeWhile_ne _ cs))
    split at hb'
    · next hdigit =>
      obtain ⟨rfl, rfl⟩ := Beginning.piece.inj hb'
      exact isFirst_of_isLexeme hb (isLexeme_digits hdigit cs)
    split at hb'
    · next hword =>
      obtain ⟨rfl, rfl⟩ := Beginning.piece.inj hb'
      exact isFirst_of_isLexeme hb (isLexeme_word hword (forall_mem_takeWhile _ cs))
    · cases hb'

end LoxScript
