/-
  LoxScript.Proofs.Scan.Lexers
  ────────────────────────────────
  What a scan leaves in a lexer.

  The turns of a lexer read the pieces of what is left, one after another,
  and every piece moves start, cursor, line and tokens on in the same way
  (`foldl_take`).  So a scan is `scan`, and nothing of what the lexer held
  before it but the text has a say in it (`tokenize_eq_scan`).

      a = 1; "b$  ⟶  tokens  a  =  1  ;     start  in front of the quote
                      cursor behind the `$`

  A scan that fails stands at the first place where nothing can be cut: the
  text before it has exactly the tokens that the lexer kept.
-/
import LoxScript.Proofs.Scan.Stops
import LoxScript.Token.Lexer

namespace LoxScript
namespace Lexer

/-! ## §1. Pieces. -/

/-- **Pieces one after another** move a lexer behind all of them. -/
theorem foldl_take (ps : List Piece) (l : Lexer) :
    ps.foldl take l
      = ⟨l.source,
          ps.getLast?.elim l.start fun p => l.position + (piecesText ps).length - p.text.length,
          l.position + (piecesText ps).length, l.line + Text.breaks (piecesText ps),
          l.tokens ++ place l.line ps⟩ := by
  induction ps generalizing l with
  | nil => simp [place]
  | cons p ps ih =>
    have hstart : (l.take p).start = l.position + p.text.length - p.text.length := by
      rw [Nat.add_sub_cancel]
      cases p <;> rfl
    have hline : (l.take p).line = l.line + Text.breaks p.text := by
      cases p <;> rfl
    have htokens : (l.take p).tokens ++ place (l.take p).line ps
        = l.tokens ++ place l.line (p :: ps) := by
      cases p with
      | gap text => rfl
      | lexeme kind text => exact List.append_assoc _ _ _
    rw [List.foldl_cons, ih, htokens, hline, hstart, source_take, position_take,
      List.getLast?_cons, piecesText_cons, Text.breaks_append, List.length_append, Nat.add_assoc,
      Nat.add_assoc]
    -- the last piece is the first one, or one of the others
    cases hlast : ps.getLast? with
    | none =>
      obtain rfl := List.getLast?_eq_none_iff.1 hlast
      rfl
    | some q => rfl

theorem rest_foldl_take {ps : List Piece} {l : Lexer} {cs : List Char}
    (h : l.rest = piecesText ps ++ cs) : (ps.foldl take l).rest = cs := by
  induction ps generalizing l with
  | nil => exact h
  | cons p ps ih =>
    rw [piecesText_cons, List.append_assoc] at h
    exact ih (rest_take h)

/-! ## §2. Turns. -/

theorem turn_of_piece {l : Lexer} {c : Char} {cs rest : List Char} {p : Piece}
    (hrest : l.rest = c :: cs) (hb : beginning c cs = .piece p rest) :
    l.turn = .goes (l.take p) := by
  rw [turn, hrest]
  dsimp only
  rw [hb]

/-- Where nothing can be cut, a turn fails. -/
theorem turn_of_blocks {l : Lexer} {cause : LexicalCause} {read : List Char}
    (h : Blocks l.rest cause read) : l.turn = .fails cause (l.read read) := by
  rw [turn]
  generalize l.rest = text at h
  cases h with
  | stray hblank hlexeme =>
    dsimp only
    rw [beginning_eq_stray_iff.2 ⟨hblank, hlexeme⟩]
  | openString hcs =>
    dsimp only
    rw [beginning_eq_unclosed_iff.2 ⟨rfl, hcs⟩]

theorem turns_of_nil {l : Lexer} (h : l.rest = []) : l.turns = (none, l) := by
  have hturn : l.turn = .finished := by rw [turn, h]
  rw [turns]
  split
  · rfl
  · next h' => cases hturn.symm.trans h'
  · next h' => cases hturn.symm.trans h'

theorem turns_of_goes {l l' : Lexer} (h : l.turn = .goes l') : l.turns = l'.turns := by
  rw [turns]
  split
  · next h' => cases h.symm.trans h'
  · next h' =>
    obtain rfl := Turn.goes.inj (h.symm.trans h')
    rfl
  · next h' => cases h.symm.trans h'

theorem turns_of_fails {l l' : Lexer} {cause : LexicalCause} (h : l.turn = .fails cause l') :
    l.turns = (some ⟨cause, l'.line⟩, l') := by
  rw [turns]
  split
  · next h' => cases h.symm.trans h'
  · next h' => cases h.symm.trans h'
  · next h' =>
    obtain ⟨rfl, rfl⟩ := Turn.fails.inj (h.symm.trans h')
    rfl

/-- **Turns** read all pieces first. -/
theorem turns_eq (l : Lexer) : l.turns = ((cut l.rest).pieces.foldl take l).turns := by
  -- on the text that is left; each piece leaves less of it
  generalize htext : l.rest = text
  fun_induction cut text generalizing l with
  | case1 | case3 | case4 => rfl
  | case2 c cs p rest hb r ih =>
    obtain ⟨t, hp, rfl⟩ := beginning_text hb
    have hsplit : l.rest = p.text ++ rest := by rw [htext, hp, List.cons_append]
    rw [turns_of_goes (turn_of_piece htext hb), ih _ (rest_take hsplit)]
    rfl

/-! ## §3. Scans. -/

/-- The lexer behind all pieces of its text. -/
def behindPieces (source : String) : Lexer :=
  (cut source.toList).pieces.foldl take (ofSource source)

theorem rest_behindPieces (source : String) :
    (behindPieces source).rest = (cut source.toList).stop.rest :=
  rest_foldl_take (cut_text source.toList).symm

theorem tokenize_of_finished {l : Lexer} (h : (cut l.source.toList).stop = .finished) :
    l.tokenize
      = let q := behindPieces l.source
        let tokens := q.tokens ++ [endToken q.line]
        (.ok tokens, { q with tokens }) := by
  have hrest := rest_behindPieces l.source
  rw [h] at hrest
  have hturns : (ofSource l.source).turns = _ := (turns_eq _).trans (turns_of_nil hrest)
  rw [tokenize, hturns]
  rfl

theorem tokenize_of_blocks {l : Lexer} {cause : LexicalCause} {read : List Char}
    (h : Blocks (cut l.source.toList).stop.rest cause read) :
    l.tokenize
      = let q := (behindPieces l.source).read read
        (.error ⟨cause, q.line⟩, q) := by
  rw [← rest_behindPieces] at h
  have hturns : (ofSource l.source).turns = _ :=
    (turns_eq _).trans (turns_of_fails (turn_of_blocks h))
  rw [tokenize, hturns]
  rfl

theorem scan_of_finished {source : String} (h : (cut source.toList).stop = .finished) :
    scan source
      = let ps := (cut source.toList).pieces
        let line := 1 + Text.breaks (piecesText ps)
        ⟨place 1 ps ++ [endToken line],
          ps.getLast?.elim 0 fun p => (piecesText ps).length - p.text.length,
          (piecesText ps).length, line, none⟩ := by
  simp only [scan, h]
  cases hlast : (cut source.toList).pieces.getLast? with
  | none =>
    rw [List.getLast?_eq_none_iff.1 hlast]
    rfl
  | some p => rfl

/-- A scan that fails has read what comes before the place where nothing can
be cut, and what shows that. -/
theorem scan_of_blocks {source : String} {cause : LexicalCause} {read : List Char}
    (h : Blocks (cut source.toList).stop.rest cause read) :
    scan source
      = let before := piecesText (cut source.toList).pieces
        let line := 1 + Text.breaks (before ++ read)
        ⟨place 1 (cut source.toList).pieces, before.length, before.length + read.length, line,
          some ⟨cause, line⟩⟩ := by
  cases hstop : (cut source.toList).stop with
  | finished =>
    rw [hstop] at h
    cases h
  | unclosed rest =>
    rw [hstop] at h
    obtain ⟨rfl, rfl⟩ := h.unique (blocks_of_unclosed hstop)
    simp only [scan, hstop, Text.breaks_append, Nat.add_assoc]
  | stray c rest =>
    rw [hstop] at h
    have hblocks := blocks_of_stray hstop
    obtain ⟨rfl, rfl⟩ := h.unique hblocks
    -- a line break is a blank, and so it is not stray
    have hbreaks : Text.breaks [c] = 0 := by
      cases hblocks with
      | stray hblank _ =>
        rw [Text.breaks, List.count_eq_zero, List.mem_singleton]
        rintro rfl
        exact hblank (by decide)
    simp only [scan, hstop, Text.breaks_append, hbreaks, Nat.add_zero, List.length_singleton]

/-- **SCANNING AGAIN.**  A scan does not depend on what earlier scans have left
in the lexer, of this text or of another one. -/
theorem tokenize_eq_scan (l : Lexer) :
    l.tokenize
      = (tokensOf l.source,
          ⟨l.source, (scan l.source).start, (scan l.source).position, (scan l.source).line,
            (scan l.source).tokens⟩) := by
  have hread := foldl_take (cut l.source.toList).pieces (ofSource l.source)
  simp only [ofSource, List.nil_append, Nat.zero_add] at hread
  rcases finished_or_blocks l.source.toList with hstop | ⟨cause, read, hblocks⟩
  · rw [tokenize_of_finished hstop, tokensOf, scan_of_finished hstop, behindPieces, ofSource, hread]
  · rw [tokenize_of_blocks hblocks, tokensOf, scan_of_blocks hblocks, behindPieces, ofSource, hread]
    simp only [Lexer.read, Text.breaks_append, Nat.add_assoc]

/-! ## §4. Scans that fail. -/

/-- How a scan that fails with an error leaves a lexer. -/
structure HasFailed (q : Lexer) (e : LexicalError) : Prop where
  /-- The text before the start has the tokens. -/
  front : ∃ line, tokensOf (String.ofList (q.source.toList.take q.start))
    = .ok (q.tokens ++ [endToken line])
  /-- Cutting comes to the start, and there it stops. -/
  reached : CutsTo q.source.toList (q.source.toList.drop q.start)
  blocked : ∃ read, Blocks (q.source.toList.drop q.start) e.cause read
    ∧ q.position = q.start + read.length
  /-- The lines are counted up to the cursor. -/
  line : q.line = 1 + Text.breaks (q.source.toList.take q.position)
  blamed : e.line = q.line

theorem hasFailed_of_blocks {source : String} {cause : LexicalCause} {read : List Char}
    (h : Blocks (cut source.toList).stop.rest cause read) :
    ∃ e, tokensOf source = .error e ∧ e.cause = cause
      ∧ HasFailed ⟨source, (scan source).start, (scan source).position, (scan source).line,
          (scan source).tokens⟩ e := by
  have htext := cut_text source.toList
  have hreached := cutsTo_stop source.toList
  have hfront := cut_piecesText source.toList
  rw [tokensOf, scan_of_blocks h]
  generalize (cut source.toList).stop.rest = rest at htext hreached h
  generalize (cut source.toList).pieces = ps at htext hfront
  obtain ⟨more, rfl⟩ := h.exists_append
  have htake : source.toList.take (piecesText ps).length = piecesText ps := by
    rw [← htext, List.take_left]
  have hdrop : source.toList.drop (piecesText ps).length = read ++ more := by
    rw [← htext, List.drop_left]
  have hread : source.toList.take ((piecesText ps).length + read.length)
      = piecesText ps ++ read := by
    rw [← htext, ← List.append_assoc, ← List.length_append, List.take_left]
  refine ⟨_, rfl, rfl, ⟨?_, ?_, ⟨read, ?_, rfl⟩, ?_, rfl⟩⟩
  · refine ⟨1 + (piecesText ps).count '\n', ?_⟩
    rw [htake, tokensOf_eq_ok_iff, String.toList_ofList, hfront]
    exact ⟨rfl, rfl⟩
  · rw [hdrop]
    exact hreached
  · rw [hdrop]
    exact h
  · rw [hread]

/-- **SCANNING FAILS AT THE FIRST BAD LEXEME.**  Whatever a lexer has been left
with, if its scan fails, it stands at a place that cutting comes to and where
nothing can be cut, with the tokens of the text before it.  And if cutting
comes to such a place, the scan fails there and for that reason. -/
theorem hasFailed_tokenize (l : Lexer) :
    (∀ e, l.tokenize.1 = .error e → l.tokenize.2.source = l.source ∧ l.tokenize.2.HasFailed e)
      ∧ ∀ p cause read, CutsTo l.source.toList (l.source.toList.drop p) →
          Blocks (l.source.toList.drop p) cause read →
          ∃ e, l.tokenize.1 = .error e ∧ e.cause = cause ∧ l.tokenize.2.start = p := by
  rw [tokenize_eq_scan]
  constructor
  · intro e he
    rcases finished_or_blocks l.source.toList with hstop | ⟨cause, read, hblocks⟩
    · rw [tokensOf, scan_of_finished hstop] at he
      cases he
    · obtain ⟨e', he', -, hfailed⟩ := hasFailed_of_blocks hblocks
      obtain rfl := Except.error.inj (he.symm.trans he')
      exact ⟨rfl, hfailed⟩
  · intro p cause read hreached hblocks
    have hlt : p < l.source.toList.length := by
      by_contra hge
      rw [List.drop_eq_nil_of_le (Nat.le_of_not_lt hge)] at hblocks
      cases hblocks
    have hrest : (cut l.source.toList).stop.rest = l.source.toList.drop p := by
      rw [hreached.stop_eq, hblocks.rest_stop]
    rw [← hrest] at hblocks
    obtain ⟨e, he, hcause, -⟩ := hasFailed_of_blocks hblocks
    refine ⟨e, he, hcause, ?_⟩
    -- the pieces are what stands before the rest
    have hlength := congrArg List.length (cut_text l.source.toList)
    rw [hrest, List.length_append, List.length_drop] at hlength
    rw [scan_of_blocks hblocks]
    dsimp only
    omega

/-- A `$` in a string and one in a comment are passed, the last one is stray; a
string that is never closed goes on behind a line break and a null character. -/
theorem hasFailed_tokenize_stray :
    let l : Lexer := ⟨"12.\n\"$\" // $\"\n!$", 7, 9, 4, [endToken 3]⟩
    let l' : Lexer := ⟨" \"\n\x00", 2, 0, 5, []⟩
    (l.tokenize.1 = .error ⟨.strayCharacter "$", 3⟩ ∧ l.tokenize.2.source = l.source
        ∧ l.tokenize.2.HasFailed ⟨.strayCharacter "$", 3⟩)
      ∧ CutsTo l'.source.toList (l'.source.toList.drop 1)
      ∧ Blocks (l'.source.toList.drop 1) .openString ['\x22', '\n', '\x00']
      ∧ ∃ e, l'.tokenize.1 = .error e ∧ e.cause = .openString ∧ l'.tokenize.2.start = 1 := by
  intro l l'
  have hcut : cut l.source.toList
      = ⟨[.lexeme .number ['1', '2'], .lexeme .dot ['.'], .gap ['\n'],
          .lexeme .string ['\x22', '$', '\x22'], .gap [' '],
          .gap ['/', '/', ' ', '$', '\x22'], .gap ['\n'], .lexeme .bang ['!']],
          .stray '$' []⟩ := by
    cbv
  have herror : l.tokenize.1 = .error ⟨.strayCharacter "$", 3⟩ := by
    rw [tokenize_eq_scan]
    simp only [tokensOf, scan, hcut]
    rfl
  have htext : l'.source.toList = [' '] ++ ['\x22', '\n', '\x00'] := by cbv
  have hrest : l'.source.toList.drop 1 = ['\x22', '\n', '\x00'] := by
    rw [htext]
    rfl
  have hreached : CutsTo l'.source.toList (l'.source.toList.drop 1) := by
    rw [hrest, htext]
    exact .gap (.blank (by decide) .nil) .here
  have hblocks : Blocks (l'.source.toList.drop 1) .openString ['\x22', '\n', '\x00'] := by
    rw [hrest]
    exact .openString (by decide)
  exact ⟨⟨herror, (hasFailed_tokenize l).1 _ herror⟩, hreached, hblocks,
    (hasFailed_tokenize l').2 1 _ _ hreached hblocks⟩

end Lexer
end LoxScript
