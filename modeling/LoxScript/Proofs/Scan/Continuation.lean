/-
  LoxScript.Proofs.Scan.Continuation
  ────────────────────────────────
  What stands behind a text does not change how the text is cut.

  A piece takes as many characters as it can, so in general it does change
  it: `1` and `5` put together are one number.  But no piece reaches over a
  character that ends it (`Piece.EndsAt`), and a line break ends them all:

      beginning_append   — the first piece, in front of what ends it
      cut_append_break   — a text that is cut to its end, in front of a line
                           break
      place_append       — pieces one after another are placed one after
                           another
-/
import LoxScript.Proofs.Scan.Beginning
import LoxScript.Token.Scan

namespace LoxScript

/-! ## §1. Taking up to a character that fails the test. -/

theorem takeWhile_append_cons_of_neg {α : Type} {p : α → Bool} {a : α} (ha : p a = false)
    (l more : List α) : (l ++ a :: more).takeWhile p = l.takeWhile p := by
  rw [List.takeWhile_append]
  split
  · next h =>
    rw [List.takeWhile_cons_of_neg (by rw [ha]; decide), List.append_nil,
      (List.takeWhile_prefix p).eq_of_length h]
  · rfl

theorem dropWhile_append_cons_of_neg {α : Type} {p : α → Bool} {a : α} (ha : p a = false)
    (l more : List α) : (l ++ a :: more).dropWhile p = l.dropWhile p ++ a :: more := by
  rw [List.dropWhile_append]
  split
  · next h =>
    rw [List.dropWhile_cons_of_neg (by rw [ha]; decide), List.isEmpty_iff.1 h, List.nil_append]
  · rfl

/-- Where something is dropped last, what follows the list is not looked at. -/
theorem takeWhile_append_of_dropWhile_eq_cons {α : Type} {p : α → Bool} {l r : List α} {a : α}
    (h : l.dropWhile p = a :: r) (more : List α) :
    (l ++ more).takeWhile p = l.takeWhile p ∧ (l ++ more).dropWhile p = a :: (r ++ more) := by
  have hsplit : l.takeWhile p ++ a :: r = l := by rw [← h, List.takeWhile_append_dropWhile]
  have hlength : (l.takeWhile p).length ≠ l.length := by
    rw [← congrArg List.length hsplit, List.length_append, List.length_cons]
    omega
  rw [List.takeWhile_append, if_neg hlength, List.dropWhile_append, h]
  exact ⟨rfl, rfl⟩

theorem append_cons_ne_cons {α : Type} {a d : α} (hd : d ≠ a) {l : List α}
    (hl : ∀ r, l ≠ a :: r) (more r : List α) : l ++ d :: more ≠ a :: r := by
  cases l with
  | nil => exact fun h => hd (List.cons.inj h).1
  | cons b l =>
    intro h
    obtain ⟨rfl, -⟩ := List.cons.inj h
    exact hl l rfl

/-! ## §2. What ends a piece. -/

/-- Whether a character ends a piece: a line break ends every piece, a blank
every lexeme, and a `/` every lexeme but another one. -/
def Piece.EndsAt (d : Char) : Piece → Prop
  | .gap _ => d = '\n'
  | .lexeme k _ => d ∈ blanks ∨ d = '/' ∧ k ≠ .slash

/-- What ends pieces is no part of a number, a word or an operator. -/
theorem Piece.EndsAt.ends {p : Piece} {d : Char} (h : p.EndsAt d) :
    d.isDigit = false ∧ continuesWord d = false ∧ d ≠ '=' ∧ d ≠ '.' := by
  have hall : ('/' :: blanks).all (fun d =>
      d.isDigit = false ∧ continuesWord d = false ∧ d ≠ '=' ∧ d ≠ '.') = true := by
    decide
  have hmem : d ∈ '/' :: blanks := by
    cases p with
    | gap _ =>
      obtain rfl : d = '\n' := h
      decide
    | lexeme k _ =>
      obtain hd | ⟨rfl, _⟩ := h
      · exact List.mem_cons_of_mem _ hd
      · exact List.mem_cons_self
  exact of_decide_eq_true (List.all_eq_true.1 hall d hmem)

/-! ## §3. The first piece. -/

theorem fractionOf_of_isDigit {e : Char} (he : e.isDigit) (es : List Char) :
    fractionOf ('.' :: e :: es)
      = ('.' :: e :: es.takeWhile Char.isDigit, es.dropWhile Char.isDigit) :=
  if_pos he

theorem fractionOf_of_ne {cs : List Char} (h : ∀ e es, e.isDigit → cs ≠ '.' :: e :: es) :
    fractionOf cs = ([], cs) := by
  unfold fractionOf
  split
  · next e es => rw [if_neg fun he => h e es he rfl]
  · rfl

theorem fractionOf_append_cons {d : Char} (hdigit : d.isDigit = false) (hpoint : d ≠ '.')
    (cs more : List Char) :
    fractionOf (cs ++ d :: more) = ((fractionOf cs).1, (fractionOf cs).2 ++ d :: more) := by
  by_cases h : ∃ e es, e.isDigit ∧ cs = '.' :: e :: es
  · obtain ⟨e, es, he, rfl⟩ := h
    rw [List.cons_append, List.cons_append, fractionOf_of_isDigit he, fractionOf_of_isDigit he,
      takeWhile_append_cons_of_neg hdigit, dropWhile_append_cons_of_neg hdigit]
  · have hcs : ∀ e es, e.isDigit → cs ≠ '.' :: e :: es := fun e es he heq => h ⟨e, es, he, heq⟩
    rw [fractionOf_of_ne hcs, fractionOf_of_ne]
    -- what is behind the point is `d`, if nothing else is
    intro e es he heq
    cases cs with
    | nil => exact hpoint (List.cons.inj heq).1
    | cons b l =>
      obtain ⟨rfl, hl⟩ := List.cons.inj heq
      have hde : d ≠ e := by
        rintro rfl
        rw [hdigit] at he
        cases he
      exact append_cons_ne_cons hde (fun r hr => hcs e r he (by rw [hr])) more es hl

/-- **The first piece** of a text is the same in front of what ends it. -/
theorem beginning_append {c d : Char} {cs rest : List Char} {p : Piece}
    (hb : beginning c cs = .piece p rest) (hd : p.EndsAt d) (more : List Char) :
    beginning c (cs ++ d :: more) = .piece p (rest ++ d :: more) := by
  obtain ⟨hdigit, hword, hequal, hpoint⟩ := hd.ends
  unfold beginning at hb ⊢
  split at hb
  -- a character by itself
  · obtain ⟨rfl, rfl⟩ := Beginning.piece.inj hb
    rfl
  -- a character before `=`, or without it
  · next joined alone _ _ =>
    split at hb
    · obtain ⟨rfl, rfl⟩ := Beginning.piece.inj hb
      rfl
    · next hne =>
      obtain ⟨rfl, rfl⟩ := Beginning.piece.inj hb
      split
      · next heq => exact absurd heq (append_cons_ne_cons hequal hne _ _)
      · rfl
  · split at hb
    -- a comment ends at a line break only, the operator anywhere but at `/`
    · next hslash =>
      rw [if_pos hslash]
      split at hb
      · obtain ⟨rfl, rfl⟩ := Beginning.piece.inj hb
        obtain rfl : d = '\n' := hd
        show Beginning.piece
            (.gap (c :: ('/' :: _ ++ '\n' :: more).takeWhile (· ≠ '\n')))
            (('/' :: _ ++ '\n' :: more).dropWhile (· ≠ '\n')) = _
        rw [takeWhile_append_cons_of_neg (by decide), dropWhile_append_cons_of_neg (by decide)]
      · next hne =>
        obtain ⟨rfl, rfl⟩ := Beginning.piece.inj hb
        have hd' : d ≠ '/' := by
          obtain hmem | ⟨_, hk⟩ := hd
          · rintro rfl
            exact absurd hmem (by decide)
          · exact absurd rfl hk
        split
        · next heq => exact absurd heq (append_cons_ne_cons hd' hne _ _)
        · rfl
    rw [if_neg ‹_›]
    split at hb
    · next hblank =>
      rw [if_pos hblank]
      obtain ⟨rfl, rfl⟩ := Beginning.piece.inj hb
      rfl
    rw [if_neg ‹_›]
    split at hb
    -- a closed string has ended already
    · next hquote =>
      rw [if_pos hquote]
      split at hb
      · cases hb
      · next q rest' hdrop =>
        obtain ⟨rfl, rfl⟩ := Beginning.piece.inj hb
        obtain ⟨htake, hdrop'⟩ := takeWhile_append_of_dropWhile_eq_cons hdrop (d :: more)
        rw [hdrop', htake]
    rw [if_neg ‹_›]
    split at hb
    · next hc =>
      rw [if_pos hc, takeWhile_append_cons_of_neg hdigit, dropWhile_append_cons_of_neg hdigit,
        fractionOf_append_cons hdigit hpoint]
      obtain ⟨rfl, rfl⟩ := Beginning.piece.inj hb
      rfl
    rw [if_neg ‹_›]
    split at hb
    · next hc =>
      obtain ⟨rfl, rfl⟩ := Beginning.piece.inj hb
      rw [if_pos hc, takeWhile_append_cons_of_neg hword, dropWhile_append_cons_of_neg hword]
    · cases hb

/-! ## §4. All pieces. -/

theorem cut_cons_of_beginning {c : Char} {cs rest : List Char} {p : Piece}
    (h : beginning c cs = .piece p rest) :
    cut (c :: cs) = ⟨p :: (cut rest).pieces, (cut rest).stop⟩ := by
  rw [cut]
  split
  · next h' =>
    obtain ⟨rfl, rfl⟩ := Beginning.piece.inj (h.symm.trans h')
    rfl
  · next h' => exact absurd (h.symm.trans h') (by simp)
  · next h' => exact absurd (h.symm.trans h') (by simp)

/-- A blank is a piece of its own. -/
theorem beginning_of_blank {c : Char} (h : c ∈ blanks) (cs : List Char) :
    beginning c cs = .piece (.gap [c]) cs := by
  have hall : blanks.all (fun c => Kind.singles.lookup c = none ∧ Kind.pairs.lookup c = none
      ∧ c ≠ '/' ∧ isBlank c = true) = true := by
    decide
  obtain ⟨hsingles, hpairs, hslash, hblank⟩ := of_decide_eq_true (List.all_eq_true.1 hall c h)
  unfold beginning
  rw [hsingles, hpairs]
  simp only [if_neg hslash, if_pos hblank]

/-- **All pieces** of a text are the same in front of a line break. -/
theorem cut_append_break {cs : List Char} (h : (cut cs).stop = .finished) (more : List Char) :
    cut (cs ++ '\n' :: more)
      = ⟨(cut cs).pieces ++ .gap ['\n'] :: (cut more).pieces, (cut more).stop⟩ := by
  fun_induction cut cs with
  | case1 => exact cut_cons_of_beginning (beginning_of_blank (by decide) more)
  | case2 c cs p rest hb r ih =>
    have hends : p.EndsAt '\n' := by
      cases p with
      | gap _ => rfl
      | lexeme _ _ => exact .inl (by decide)
    rw [List.cons_append, cut_cons_of_beginning (beginning_append hb hends more), ih h]
    rfl
  | case3 | case4 => cases h

theorem place_append (line : Nat) (ps qs : List Piece) :
    place line (ps ++ qs)
      = place line ps ++ place (line + Text.breaks (piecesText ps)) qs := by
  induction ps generalizing line with
  | nil => rfl
  | cons p ps ih =>
    cases p with
    | gap text => simp [place, ih, Piece.text, Nat.add_assoc]
    | lexeme kind text => simp [place, ih, Piece.text, Nat.add_assoc]

end LoxScript
